import DdrdeskHost.BestMode
import DdrdeskHost.Listing

namespace DdrdeskHost
open Text
set_option autoImplicit true

def Block.modes (b : Block) : List Mode := b.lines.flatMap lineModes

def Block.labels (b : Block) : List Str := b.modes.map Mode.label

/-- An output whose lines tell its geometry. -/
structure Monitor extends Block where
  size : Nat × Nat
  geometry : (toBlock.lines.findSome? fun l => geometryOf (trim l)) = some size

theorem parseModes_blocks {bs : List Monitor} (h : lines text = bs.flatMap (·.lines)) :
    parseModes text = bs.flatMap (·.modes) := by
  rw [parseModes_eq, h, List.flatMap_assoc]
  rfl

theorem logicalSize_blocks {K : Kscreen W} {bs : List Monitor} (hlist : K.list w = some text)
    (h : lines text = (b :: bs).flatMap (·.lines)) : logicalSize K w = b.size := by
  have hfind : ((lines text).findSome? fun l => geometryOf (trim l)) = some b.size := by
    rw [h, List.flatMap_cons, List.findSome?_append, b.geometry]
    rfl
  simp only [logicalSize, hlist, hfind, Option.getD_some]

theorem name_blocks {bs : List Monitor} (h : lines text = bs.flatMap (·.lines)) :
    (parsePrimary text).map (·.name) = bs.getLast?.map (·.name) := by
  have hblocks : lines text = (bs.map Monitor.toBlock).flatMap Block.lines := by
    rw [h, List.flatMap_map]
  rw [parsePrimary_blocks hblocks, List.getLast?_map, Option.map_map, Option.map_map]
  rfl

/-- `apply_viewport` asks for this mode on the output of this name. -/
def Requested (K : Kscreen W) (w : W) (vp : Viewport) (name m : Str) : Prop :=
  ∃ out, primaryListing K w = some (name, out) ∧ .mode m ∈ viewportSettings vp out

theorem mem_labels_of_requested (h : Requested K w vp name m) (hlist : K.list w = some text) :
    m ∈ (parseModes text).map Mode.label := by
  obtain ⟨out, hp, hm⟩ := h
  have hout : out = text := by
    rw [primaryListing, hlist] at hp
    obtain ⟨-, hp⟩ := Option.ite_none_right_eq_some.1 hp
    obtain ⟨s, -, hs⟩ := Option.map_eq_some_iff.1 hp
    exact (congrArg Prod.snd hs).symm
  subst hout
  rw [viewportSettings] at hm
  cases hb : bestMode (targetSize vp) (parseModes out) with
  | none => simp [hb] at hm
  | some b =>
    obtain ⟨mode, scale, sc⟩ := b
    have hmode : m = mode := by simpa [hb] using hm
    rw [hmode]
    exact (candidate_bestMode _ _ _ hb).1

/-- Among the listings of this many outputs, the output at this place alone decides what is read. -/
def DecidedBy (read : Str → α) (text : Str) (bs : List Monitor) (i : Nat) : Prop :=
  ∀ (text' : Str) (bs' : List Monitor), lines text' = bs'.flatMap (·.lines) →
    bs'.length = bs.length → bs'[i]? = bs[i]? → read text' = read text

/-- `logical_size` of a listing. -/
def sizeOf (K : Kscreen W) (w : W) (text : Str) : Nat × Nat :=
  logicalSize { K with list := fun _ => some text } w

theorem sizeOf_blocks (K : Kscreen W) (w : W) {bs : List Monitor}
    (h : lines text = (b :: bs).flatMap (·.lines)) : sizeOf K w text = b.size :=
  logicalSize_blocks rfl h

def laptop : Monitor where
  header := "Output: 1 eDP-1 enabled".toList
  body := ["Modes: 1:1920x1200@60!* 2:1280x800@60".toList, "Geometry: 0,0 1536x960".toList,
    "Scale: 1.25".toList, "Rotation: 1".toList]
  isOutput := by decide +kernel
  notOutput := by decide +kernel
  size := (1536, 960)
  geometry := by decide +kernel

def television : Monitor where
  header := "Output: 2 DP-3 enabled".toList
  body := ["Modes: 1:3840x2160@60!*".toList, "Geometry: 1536,0 3840x2160".toList,
    "Scale: 1".toList, "Rotation: 1".toList]
  isOutput := by decide +kernel
  notOutput := by decide +kernel
  size := (3840, 2160)
  geometry := by decide +kernel

def laptopText : Str :=
  ("Output: 1 eDP-1 enabled\nModes: 1:1920x1200@60!* 2:1280x800@60\nGeometry: 0,0 1536x960\n" ++
    "Scale: 1.25\nRotation: 1\n").toList

def televisionText : Str :=
  ("Output: 2 DP-3 enabled\nModes: 1:3840x2160@60!*\nGeometry: 1536,0 3840x2160\n" ++
    "Scale: 1\nRotation: 1\n").toList

/-- Any output can be put in the place of another one. -/
theorem exists_set {bs : List Monitor} (h : lines text = bs.flatMap (·.lines)) (i : Nat)
    (m : Monitor) (hm : ∀ l ∈ m.lines, '\n' ∉ l) :
    ∃ text', lines text' = (bs.set i m).flatMap (·.lines) := by
  apply exists_lines
  intro l hl
  obtain ⟨b, hb, hl⟩ := List.mem_flatMap.1 hl
  rcases List.mem_or_eq_of_mem_set hb with hb | hb
  · have hline : l ∈ lines text := by
      rw [h]
      exact List.mem_flatMap_of_mem hb hl
    exact newline_not_mem_lines hline
  · rw [hb] at hl
    exact hm l hl

theorem exists_other (p : Monitor → Prop) (h : ¬p laptop ∨ ¬p television) :
    ∃ m, ¬p m ∧ ∀ l ∈ m.lines, '\n' ∉ l := by
  rcases h with h | h
  · exact ⟨laptop, h, by decide +kernel⟩
  · exact ⟨television, h, by decide +kernel⟩

theorem size_decided {K : Kscreen W} {w : W} {bs : List Monitor}
    (h : lines text = bs.flatMap (·.lines)) (hi : i < bs.length)
    (hd : DecidedBy (sizeOf K w) text bs i) : i = 0 := by
  obtain ⟨b, bs, rfl⟩ := List.exists_cons_of_length_pos (Nat.zero_lt_of_lt hi)
  by_contra hne
  obtain ⟨m, hm, hlines⟩ := exists_other (fun m => m.size = b.size) (by
    by_cases hl : laptop.size = b.size
    · right
      rw [← hl]
      decide
    · exact .inl hl)
  obtain ⟨text', ht⟩ := exists_set h 0 m hlines
  have hread := hd text' _ ht List.length_set (List.getElem?_set_ne (Ne.symm hne))
  rw [sizeOf_blocks K w h, sizeOf_blocks K w ht] at hread
  exact hm hread

theorem name_decided {bs : List Monitor} (h : lines text = bs.flatMap (·.lines))
    (hi : i < bs.length)
    (hd : DecidedBy (fun t => (parsePrimary t).map (·.name)) text bs i) : i = bs.length - 1 := by
  by_contra hne
  have hlast : bs.length - 1 < bs.length := Nat.sub_one_lt_of_lt hi
  obtain ⟨m, hm, hlines⟩ := exists_other (fun m => m.name = bs[bs.length - 1].name) (by
    by_cases hl : laptop.name = bs[bs.length - 1].name
    · right
      rw [← hl]
      decide +kernel
    · exact .inl hl)
  obtain ⟨text', ht⟩ := exists_set h (bs.length - 1) m hlines
  have hread := hd text' _ ht List.length_set (List.getElem?_set_ne (Ne.symm hne))
  simp only [name_blocks h, name_blocks ht, List.getLast?_eq_getElem?, List.length_set,
    List.getElem?_set_self hlast, List.getElem?_eq_getElem hlast, Option.map_some,
    Option.some.injEq] at hread
  exact hm hread

/-- The size, the name and the requested mode are read of one output of the listing, the one at a
place that alone decides the first two, if and only if no more than one is listed. -/
theorem readers_agree (K : Kscreen W) (w : W) (vp : Viewport) (text : Str) (bs : List Monitor)
    (hlist : K.list w = some text) (h : lines text = bs.flatMap (·.lines)) :
    (∀ s, parsePrimary text = some s →
      ∃ i b, bs[i]? = some b ∧
        logicalSize K w = b.size ∧ DecidedBy (sizeOf K w) text bs i ∧
        s.name = b.name ∧ DecidedBy (fun t => (parsePrimary t).map (·.name)) text bs i ∧
        ∀ m, Requested K w vp s.name m → m ∈ b.labels) ↔
      bs.length ≤ 1 := by
  have hname := name_blocks h
  constructor
  · intro hall
    by_contra hlong
    have hlast : bs.length - 1 < bs.length := by omega
    rw [List.getLast?_eq_getElem?, List.getElem?_eq_getElem hlast] at hname
    obtain ⟨s, hs, -⟩ := Option.map_eq_some_iff.1 hname
    obtain ⟨i, b, hb, -, hsize, -, hnamed, -⟩ := hall s hs
    have hi : i < bs.length := (List.getElem?_eq_some_iff.1 hb).1
    have hfirst := size_decided h hi hsize
    have hend := name_decided h hi hnamed
    omega
  · intro hshort s hs
    rw [hs] at hname
    have hlen : bs.length ≠ 0 := by
      intro hzero
      rw [List.eq_nil_of_length_eq_zero hzero] at hname
      cases hname
    obtain ⟨b, rfl⟩ := List.length_eq_one_iff.1 (by omega : bs.length = 1)
    have honly : ∀ bs' : List Monitor, bs'.length = [b].length → bs'[0]? = [b][0]? → bs' = [b] := by
      intro bs' hlen' hget
      obtain ⟨b', rfl⟩ := List.length_eq_one_iff.1 hlen'
      rw [Option.some.inj hget]
    refine ⟨0, b, rfl, logicalSize_blocks hlist h, ?_, Option.some.inj hname, ?_, ?_⟩
    · intro text' bs' ht hlen' hget
      rw [honly bs' hlen' hget] at ht
      rw [sizeOf_blocks K w h, sizeOf_blocks K w ht]
    · intro text' bs' ht hlen' hget
      rw [honly bs' hlen' hget] at ht
      simp only [name_blocks h, name_blocks ht]
    · intro m hm
      have hlabel := mem_labels_of_requested hm hlist
      rw [parseModes_blocks h] at hlabel
      simpa [Block.labels] using hlabel

def landscapePhone : Viewport := ⟨2556, 1179, 852, 393, 3, "landscape"⟩

def listed (text : Str) : Kscreen Unit where
  live _ := true
  list _ := some text
  exec _ w := w
  persist _ s _ := some s

/-- With the laptop's panel alone, all readers mean that one. -/
theorem readers_agree_laptop :
    ∃ (i : Nat) (b : Monitor), [laptop][i]? = some b ∧ logicalSize (listed laptopText) () = b.size ∧
      "eDP-1".toList = b.name ∧
      ∀ m, Requested (listed laptopText) () landscapePhone "eDP-1".toList m → m ∈ b.labels := by
  obtain ⟨i, b, hb, hsize, -, hname, -, hmode⟩ :=
    (readers_agree (listed laptopText) () landscapePhone laptopText [laptop] rfl
      (by decide +kernel)).2 (Nat.le_refl 1)
      ⟨"eDP-1".toList, "1920x1200@60".toList, "1.25".toList, "none".toList⟩ (by decide +kernel)
  exact ⟨i, b, hb, hsize, hname, hmode⟩

/-- With two outputs, the name is the television's and the size is the laptop's. -/
theorem readers_mix_outputs :
    ¬∀ (K : Kscreen Unit) (w : Unit) (vp : Viewport) (text : Str) (bs : List Monitor),
      K.list w = some text → lines text = bs.flatMap (·.lines) →
      ∀ s, parsePrimary text = some s →
        ∃ b ∈ bs, b.name = s.name ∧ logicalSize K w = b.size ∧
          ∀ m, Requested K w vp s.name m → m ∈ b.labels := by
  intro h
  have hs : parsePrimary (laptopText ++ televisionText) =
      some ⟨"DP-3".toList, "3840x2160@60".toList, "1".toList, "none".toList⟩ := by
    decide +kernel
  obtain ⟨b, hb, hname, hsize, -⟩ := h (listed (laptopText ++ televisionText)) ()
    landscapePhone _ [laptop, television] rfl (by decide +kernel) _ hs
  rcases List.mem_cons.1 hb with rfl | hb
  · exact absurd hname (by decide +kernel)
  · rw [List.mem_singleton.1 hb] at hsize
    exact absurd hsize (by decide +kernel)

end DdrdeskHost
