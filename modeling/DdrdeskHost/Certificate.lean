import DdrdeskHost.Lib.Files
import DdrdeskHost.Lib.Runs
import DdrdeskHost.Lib.Text
import Mathlib.Data.List.Infix

namespace DdrdeskHost
set_option autoImplicit true

/-- The files below `tls`. -/
inductive TlsPath
  | cert
  | key
  deriving DecidableEq

/-- The ways `tls::load_or_create` fails; `indexOutOfBounds` stands for a panic. -/
inductive TlsError
  | generate
  | notFound
  | parseCert
  | parseKey
  | noPkcs8Key
  | indexOutOfBounds
  | badKey
  deriving DecidableEq

/-- The libraries for certificates and keys: their PEM texts and what is read from a file, whether
a chain and a key make a server configuration, the SHA-256 digest of a certificate. -/
structure TlsLib (Cert Key : Type) where
  certPem : Cert → List UInt8
  keyPem : Key → List UInt8
  certs : List UInt8 → Option (List Cert)
  pkcs8Keys : List UInt8 → Option (List Key)
  accepts : List Cert → Key → Bool
  sha256 : Cert → List UInt8

/-- A certificate and the key it was generated with. -/
structure Generated {Cert Key : Type} (L : TlsLib Cert Key) where
  cert : Cert
  key : Key
  accepted : L.accepts [cert] key = true

structure Tls (Cert Key : Type) where
  certs : List Cert
  key : Key
  fingerprint : Str
  deriving DecidableEq

def hexEncode (bs : List UInt8) : Str :=
  bs.flatMap fun b => [(b.toNat / 16).digitChar, (b.toNat % 16).digitChar]

section
variable {Cert Key : Type} (L : TlsLib Cert Key)

def fingerprint (c : Cert) : Str := "sha256:".toList ++ hexEncode (L.sha256 c)

/-- A server that runs on a certificate and the key it was generated with. -/
def Generated.tls {L : TlsLib Cert Key} (g : Generated L) : Tls Cert Key :=
  { certs := [g.cert], key := g.key, fingerprint := fingerprint L g.cert }

/-- The part of `load_or_create` that reads the two files. -/
def readTls (d : Files TlsPath (List UInt8)) : Except TlsError (Tls Cert Key) :=
  match d .cert, d .key with
  | some certPem, some keyPem =>
    match L.certs certPem with
    | none => .error .parseCert
    | some certs =>
      match L.pkcs8Keys keyPem with
      | none => .error .parseKey
      | some [] => .error .noPkcs8Key
      | some (key :: _) =>
        match certs with
        | [] => .error .indexOutOfBounds
        | c :: _ =>
          if L.accepts certs key then
            .ok { certs := certs, key := key, fingerprint := fingerprint L c }
          else .error .badKey
  | _, _ => .error .notFound

/-- What is written where one of the files is missing. -/
def tlsWrites (g : Generated L) : List (TlsPath × List UInt8) :=
  [(.cert, L.certPem g.cert), (.key, L.keyPem g.key)]

/-- `load_or_create`; `g` is what `rcgen` makes of the host's names, if it accepts them. -/
def loadOrCreateTls (g : Option (Generated L)) (d : Files TlsPath (List UInt8)) :
    Files TlsPath (List UInt8) × Except TlsError (Tls Cert Key) :=
  if d .cert = none ∨ d .key = none then
    match g with
    | none => (d, .error .generate)
    | some g => (d.writes (tlsWrites L g), readTls L (d.writes (tlsWrites L g)))
  else (d, readTls L d)

/-- A start of the daemon, with what `load_or_create` returned, or a start that was killed in it. -/
inductive TlsEvent
  | started (g : Option (Generated L)) (r : Except TlsError (Tls Cert Key))
  | killed (g : Option (Generated L))

inductive TlsStep : Files TlsPath (List UInt8) → TlsEvent L → Files TlsPath (List UInt8) → Prop
  | started (d : Files TlsPath (List UInt8)) (g : Option (Generated L)) :
    TlsStep d (.started g (loadOrCreateTls L g d).2) (loadOrCreateTls L g d).1
  | idle (d : Files TlsPath (List UInt8)) (g : Option (Generated L)) : TlsStep d (.killed g) d
  | killed (g : Generated L) (hd : d .cert = none ∨ d .key = none)
      (h : Files.Torn (· <+: ·) d (tlsWrites L g) d') : TlsStep d (.killed (some g)) d'

/-- What the start relies on: the PEM texts read back, and a key's text that was cut short gives no
key, or the same one. -/
structure TlsLib.Reads : Prop where
  certs : ∀ c, L.certs (L.certPem c) = some [c]
  keys : ∀ k, L.pkcs8Keys (L.keyPem k) = some [k]
  cut : ∀ k b, b <+: L.keyPem k →
    L.pkcs8Keys b = none ∨ L.pkcs8Keys b = some [] ∨ L.pkcs8Keys b = some [k]

/-- The key's file is there and no key is in it. -/
def KeyCut (d : Files TlsPath (List UInt8)) : Prop :=
  ∃ b, d .key = some b ∧ (L.pkcs8Keys b = none ∨ L.pkcs8Keys b = some [])

/-- A key's file, or a part of it, stands beside the certificate it was generated with. -/
def KeyPaired (d : Files TlsPath (List UInt8)) : Prop :=
  ∀ b, d .key = some b →
    ∃ g : Generated L, d .cert = some (L.certPem g.cert) ∧ b <+: L.keyPem g.key

end

section
variable {Cert Key : Type} {L : TlsLib Cert Key} {d d' : Files TlsPath (List UInt8)}

theorem loadOrCreateTls_present (h : ¬(d .cert = none ∨ d .key = none))
    (g : Option (Generated L)) : loadOrCreateTls L g d = (d, readTls L d) := by
  unfold loadOrCreateTls
  rw [if_neg h]

theorem loadOrCreateTls_absent (h : d .cert = none ∨ d .key = none) (g : Generated L) :
    loadOrCreateTls L (some g) d =
      (d.writes (tlsWrites L g), readTls L (d.writes (tlsWrites L g))) := by
  unfold loadOrCreateTls
  rw [if_pos h]

theorem loadOrCreateTls_refused (h : d .cert = none ∨ d .key = none) :
    loadOrCreateTls L none d = (d, .error .generate) := by
  unfold loadOrCreateTls
  rw [if_pos h]

theorem present_of_readTls (h : readTls L d = .ok t) : ¬(d .cert = none ∨ d .key = none) := by
  unfold readTls at h
  split at h
  · next b c hb hc => simp [hb, hc]
  · cases h

theorem present_of_ok (h : (loadOrCreateTls L g d).2 = .ok t) :
    readTls L (loadOrCreateTls L g d).1 = .ok t := by
  by_cases hd : d .cert = none ∨ d .key = none
  · cases g with
    | none =>
      rw [loadOrCreateTls_refused hd] at h
      cases h
    | some g =>
      rw [loadOrCreateTls_absent hd] at h ⊢
      exact h
  · rw [loadOrCreateTls_present hd] at h ⊢
    exact h

theorem TlsStep.present (h : TlsStep L d e d') (hd : ¬(d .cert = none ∨ d .key = none)) :
    d' = d ∧ ∀ g r, e = .started g r → r = readTls L d := by
  cases h with
  | started g =>
    rw [loadOrCreateTls_present hd]
    refine ⟨rfl, ?_⟩
    intro g' r he
    cases he
    rfl
  | idle => exact ⟨rfl, by simp⟩
  | killed g hd' => exact absurd hd' hd

theorem run_present (h : Run (TlsStep L) d es d') (hd : ¬(d .cert = none ∨ d .key = none)) :
    d' = d ∧ ∀ g r, .started g r ∈ es → r = readTls L d := by
  induction h with
  | nil => exact ⟨rfl, by simp⟩
  | cons hst _ ih =>
    obtain ⟨rfl, hr⟩ := hst.present hd
    obtain ⟨rfl, hrs⟩ := ih hd
    refine ⟨rfl, ?_⟩
    intro g r hm
    rcases List.mem_cons.1 hm with he | hm
    · exact hr g r he.symm
    · exact hrs g r hm

@[simp] theorem writes_cert (g : Generated L) (d : Files TlsPath (List UInt8)) :
    d.writes (tlsWrites L g) .cert = some (L.certPem g.cert) := by
  rw [tlsWrites, Files.writes_cons, Files.writes_cons, Files.writes_nil,
    Files.write_of_ne _ _ (by simp), Files.write_self]

@[simp] theorem writes_key (g : Generated L) (d : Files TlsPath (List UInt8)) :
    d.writes (tlsWrites L g) .key = some (L.keyPem g.key) := by
  rw [tlsWrites, Files.writes_cons, Files.writes_cons, Files.writes_nil, Files.write_self]

theorem readTls_writes (hL : L.Reads) (g : Generated L) (d : Files TlsPath (List UInt8)) :
    readTls L (d.writes (tlsWrites L g)) = .ok g.tls := by
  simp only [readTls, writes_cert, writes_key, hL.certs, hL.keys, g.accepted, ↓reduceIte]
  rfl

theorem TlsStep.makes (hL : L.Reads) (hd : d .cert = none ∨ d .key = none) (g : Generated L) :
    TlsStep L d (.started (some g) (.ok g.tls)) (d.writes (tlsWrites L g)) := by
  have h := TlsStep.started d (some g)
  rwa [loadOrCreateTls_absent hd, readTls_writes hL] at h

theorem TlsStep.uses (hL : L.Reads) (g : Generated L) (g' : Option (Generated L))
    (d : Files TlsPath (List UInt8)) :
    TlsStep L (d.writes (tlsWrites L g)) (.started g' (.ok g.tls)) (d.writes (tlsWrites L g)) := by
  have h := TlsStep.started (L := L) (d.writes (tlsWrites L g)) g'
  rwa [loadOrCreateTls_present (by simp), readTls_writes hL] at h

end

/-- Texts with one byte between two marks. -/
def markedTls : TlsLib UInt8 UInt8 where
  certPem c := [60, c, 62]
  keyPem k := [40, k, 41]
  certs
    | [60, c, 62] => some [c]
    | _ => some []
  pkcs8Keys
    | [40, k, 41] => some [k]
    | _ => some []
  accepts cs k := cs == [k]
  sha256 c := [c]

theorem markedTls_reads : markedTls.Reads where
  certs _ := rfl
  keys _ := rfl
  cut k b hb := by
    rw [List.prefix_iff_eq_take] at hb
    have hlen : b.length = 0 ∨ b.length = 1 ∨ b.length = 2 ∨ 3 ≤ b.length := by omega
    rcases hlen with h | h | h | h
    · rw [hb, h]
      exact .inr (.inl rfl)
    · rw [hb, h]
      exact .inr (.inl rfl)
    · rw [hb, h]
      exact .inr (.inl rfl)
    · rw [hb, List.take_of_length_le h]
      exact .inr (.inr rfl)

def sevens : Generated markedTls := ⟨7, 7, by decide⟩

def nines : Generated markedTls := ⟨9, 9, by decide⟩

/-- Once the daemon has started, every later start gives the same certificate and key, and so the
fingerprint that a client has stored, whatever was there before and wherever starts are killed. -/
theorem fingerprint_survives {Cert Key : Type} (L : TlsLib Cert Key)
    (d d' : Files TlsPath (List UInt8)) (es es' : List (TlsEvent L)) (g : Option (Generated L))
    (t : Tls Cert Key) (h : Run (TlsStep L) d (es ++ .started g (.ok t) :: es') d') :
    ∀ g' r, .started g' r ∈ es' → r = .ok t := by
  obtain ⟨d₁, -, h₂⟩ := h.split
  cases h₂ with
  | cons hst hr =>
    intro g' r hm
    generalize he : TlsEvent.started g (.ok t) = e at hst
    cases hst with
    | started g₁ =>
      injection he with hg ht
      have hread := present_of_ok ht.symm
      rw [(run_present hr (present_of_readTls hread)).2 g' r hm, hread]
    | idle | killed => cases he

/-- A start that is killed between the two files, one that makes them again, and another. -/
theorem fingerprint_survives_kill :
    ∃ d', Run (TlsStep markedTls) (fun _ => none)
        [.killed (some nines), .started (some sevens) (.ok sevens.tls),
          .started (some nines) (.ok sevens.tls)] d' ∧
      ∀ g' r, .started g' r ∈ [TlsEvent.started (some nines) (.ok sevens.tls)] →
        r = .ok sevens.tls := by
  have h : Run (TlsStep markedTls) (fun _ => none)
      [.killed (some nines), .started (some sevens) (.ok sevens.tls),
        .started (some nines) (.ok sevens.tls)]
      ((Files.write (fun _ => none) (.cert, markedTls.certPem 9)).writes
        (tlsWrites markedTls sevens)) :=
    .cons (.killed nines (.inl rfl) (.after (.between _ _)))
      (.cons (.makes markedTls_reads (.inr rfl) sevens)
        (.single (.uses markedTls_reads sevens _ _)))
  exact ⟨_, h, fingerprint_survives markedTls _ _ [.killed (some nines)]
    [.started (some nines) (.ok sevens.tls)] (some sevens) sevens.tls h⟩

section
variable {Cert Key : Type} {L : TlsLib Cert Key} {d d' : Files TlsPath (List UInt8)}

theorem keyPaired_writes (g : Generated L) (d : Files TlsPath (List UInt8)) :
    KeyPaired L (d.writes (tlsWrites L g)) := by
  intro b hb
  rw [writes_key] at hb
  cases hb
  exact ⟨g, writes_cert g d, List.prefix_rfl⟩

theorem KeyPaired.absent (hd : KeyPaired L d) (h : d .cert = none ∨ d .key = none) :
    d .key = none := by
  cases hk : d .key with
  | none => rfl
  | some b =>
    obtain ⟨g, hc, -⟩ := hd b hk
    simp [hc, hk] at h

theorem KeyPaired.torn (hd : KeyPaired L d) (h : d .cert = none ∨ d .key = none)
    (ht : Files.Torn (· <+: ·) d (tlsWrites L g) d') : KeyPaired L d' := by
  have hkey := hd.absent h
  have hcert (c : List UInt8) : KeyPaired L (d.write (.cert, c)) := by
    intro b hb
    rw [Files.write_of_ne _ _ (by simp), hkey] at hb
    cases hb
  rcases ht.pair with rfl | ⟨c, -, rfl⟩ | rfl | ⟨b, hb, rfl⟩ | rfl
  · exact hd
  · exact hcert c
  · exact hcert _
  · intro b' hb'
    rw [Files.write_self] at hb'
    cases hb'
    refine ⟨g, ?_, hb⟩
    rw [Files.write_of_ne _ _ (by simp), Files.write_self]
  · exact keyPaired_writes g d

theorem KeyPaired.step (hd : KeyPaired L d) (h : TlsStep L d e d') : KeyPaired L d' := by
  cases h with
  | started g =>
    by_cases ha : d .cert = none ∨ d .key = none
    · cases g with
      | none =>
        rw [loadOrCreateTls_refused ha]
        exact hd
      | some g =>
        rw [loadOrCreateTls_absent ha]
        exact keyPaired_writes g d
    · rw [loadOrCreateTls_present ha]
      exact hd
  | idle => exact hd
  | killed g ha ht => exact hd.torn ha ht

theorem not_keyCut_writes (hL : L.Reads) (g : Generated L) (d : Files TlsPath (List UInt8)) :
    ¬KeyCut L (d.writes (tlsWrites L g)) := by
  rintro ⟨b, hb, hcut⟩
  rw [writes_key] at hb
  cases hb
  simp [hL.keys] at hcut

theorem KeyPaired.read (hL : L.Reads) (hd : KeyPaired L d) (hk : d .key = some b) :
    (∃ g : Generated L, readTls L d = .ok g.tls ∧ ¬KeyCut L d) ∨
      (readTls L d = .error .parseKey ∨ readTls L d = .error .noPkcs8Key) ∧ KeyCut L d := by
  obtain ⟨g, hc, hpre⟩ := hd b hk
  rcases hL.cut g.key b hpre with hnone | hnil | hkey
  · refine .inr ⟨.inl ?_, b, hk, .inl hnone⟩
    simp only [readTls, hc, hk, hL.certs, hnone]
  · refine .inr ⟨.inr ?_, b, hk, .inr hnil⟩
    simp only [readTls, hc, hk, hL.certs, hnil]
  · refine .inl ⟨g, ?_, ?_⟩
    · simp only [readTls, hc, hk, hL.certs, hkey, g.accepted, ↓reduceIte]
      rfl
    · rintro ⟨b', hb', hcut⟩
      cases hk.symm.trans hb'
      simp [hkey] at hcut

theorem KeyPaired.load (hL : L.Reads) (hd : KeyPaired L d) (g : Option (Generated L)) :
    (∃ g' : Generated L, (loadOrCreateTls L g d).2 = .ok g'.tls ∧ ¬KeyCut L d) ∨
      ((loadOrCreateTls L g d).2 = .error .parseKey ∨
        (loadOrCreateTls L g d).2 = .error .noPkcs8Key) ∧ KeyCut L d ∨
      (loadOrCreateTls L g d).2 = .error .generate ∧ g = none := by
  by_cases ha : d .cert = none ∨ d .key = none
  · cases g with
    | none =>
      rw [loadOrCreateTls_refused ha]
      exact .inr (.inr ⟨rfl, rfl⟩)
    | some g =>
      rw [loadOrCreateTls_absent ha]
      have hcut : ¬KeyCut L d := by
        rintro ⟨b, hb, -⟩
        cases (hd.absent ha).symm.trans hb
      exact .inl ⟨g, readTls_writes hL g d, hcut⟩
  · rw [loadOrCreateTls_present ha]
    obtain ⟨b, hb⟩ := Option.ne_none_iff_exists'.1 (not_or.1 ha).2
    rcases hd.read hL hb with h | h
    · exact .inl h
    · exact .inr (.inl h)

theorem KeyCut.present (hd : KeyPaired L d) (h : KeyCut L d) :
    ¬(d .cert = none ∨ d .key = none) := by
  obtain ⟨b, hb, -⟩ := h
  obtain ⟨g, hc, -⟩ := hd b hb
  simp [hb, hc]

theorem KeyCut.step (hL : L.Reads) (hcut : KeyCut L d')
    (h : TlsStep L d e d') : KeyCut L d ∨ ∃ g, e = .killed g := by
  cases h with
  | started g =>
    by_cases ha : d .cert = none ∨ d .key = none
    · cases g with
      | none =>
        rw [loadOrCreateTls_refused ha] at hcut
        exact .inl hcut
      | some g =>
        rw [loadOrCreateTls_absent ha] at hcut
        exact absurd hcut (not_keyCut_writes hL g d)
    · rw [loadOrCreateTls_present ha] at hcut
      exact .inl hcut
  | idle g => exact .inr ⟨g, rfl⟩
  | killed g => exact .inr ⟨some g, rfl⟩

/-- What a start may return: a pair, the refusal of the names, or that the key's file has none. -/
def Outcome (g : Option (Generated L)) (r : Except TlsError (Tls Cert Key)) : Prop :=
  (∃ g' : Generated L, r = .ok g'.tls) ∨ r = .error .generate ∧ g = none ∨
    r = .error .parseKey ∨ r = .error .noPkcs8Key

theorem TlsStep.outcome (hL : L.Reads) (hd : KeyPaired L d) (h : TlsStep L d (.started g r) d') :
    Outcome g r := by
  generalize he : TlsEvent.started g r = e at h
  cases h with
  | started g =>
    cases he
    rcases hd.load hL g with ⟨g', h, -⟩ | ⟨h, -⟩ | h
    · exact .inl ⟨g', h⟩
    · exact .inr (.inr h)
    · exact .inr (.inl h)
  | idle | killed => cases he

/-- What holds after any starts: the files are paired, every start returned what it may, and a key
was cut short by a start that was killed. -/
theorem started_outcomes (hL : L.Reads) (hd : d .key = none) (h : Run (TlsStep L) d es d') :
    KeyPaired L d' ∧ (∀ g r, .started g r ∈ es → Outcome g r) ∧
      (KeyCut L d' → ∃ g, .killed g ∈ es) := by
  have hd₀ : KeyPaired L d := by
    intro b hb
    cases hd.symm.trans hb
  have hcut₀ : ¬KeyCut L d := by
    rintro ⟨b, hb, -⟩
    cases hd.symm.trans hb
  refine h.invariant_trace (p := [])
    (I := fun p d => KeyPaired L d ∧ (∀ g r, .started g r ∈ p → Outcome g r) ∧
      (KeyCut L d → ∃ g, .killed g ∈ p)) ?_ ⟨hd₀, by simp, fun hc => absurd hc hcut₀⟩
  rintro p d e d' ⟨hpair, hout, hkill⟩ hst
  refine ⟨hpair.step hst, ?_, ?_⟩
  · intro g r hm
    rcases List.mem_append.1 hm with hm | hm
    · exact hout g r hm
    · rw [List.mem_singleton] at hm
      subst hm
      exact hst.outcome hL hpair
  · intro hc
    rcases hc.step hL hst with hc | ⟨g, rfl⟩
    · obtain ⟨g, hg⟩ := hkill hc
      exact ⟨g, List.mem_append_left _ hg⟩
    · exact ⟨g, List.mem_append_right _ List.mem_cons_self⟩

end

/-- From a directory without a key, after any starts and kills: a start that succeeded uses a
certificate with the key made for it, and the next one succeeds unless a start was killed as it
wrote the key; the daemon never replaces a key that was cut short. -/
theorem certificate_heals {Cert Key : Type} (L : TlsLib Cert Key) (hL : L.Reads)
    (d d' : Files TlsPath (List UInt8)) (hd : d .key = none) (es : List (TlsEvent L))
    (h : Run (TlsStep L) d es d') :
    (∀ g r, .started g r ∈ es → (∃ g' : Generated L, r = .ok g'.tls) ∨
      r = .error .generate ∧ g = none ∨ r = .error .parseKey ∨ r = .error .noPkcs8Key) ∧
    (∀ g, (∃ t, (loadOrCreateTls L (some g) d').2 = .ok t) ↔ ¬KeyCut L d') ∧
    (KeyCut L d' → (∃ g, .killed g ∈ es) ∧ ∀ es' d'', Run (TlsStep L) d' es' d'' →
      d'' = d' ∧ ∀ g r, .started g r ∈ es' → r = .error .parseKey ∨ r = .error .noPkcs8Key) := by
  obtain ⟨hpair, hout, hkill⟩ := started_outcomes hL hd h
  refine ⟨hout, ?_, ?_⟩
  · intro g
    rcases hpair.load hL (some g) with ⟨g', ht, hc⟩ | ⟨ht, hc⟩ | ⟨-, hg⟩
    · exact ⟨fun _ => hc, fun _ => ⟨g'.tls, ht⟩⟩
    · constructor
      · rintro ⟨t, ht'⟩
        rw [ht'] at ht
        rcases ht with ht | ht <;> cases ht
      · exact fun hn => absurd hc hn
    · cases hg
  · intro hc
    refine ⟨hkill hc, ?_⟩
    intro es' d'' hr
    obtain ⟨rfl, hres⟩ := run_present hr (hc.present hpair)
    refine ⟨rfl, ?_⟩
    intro g r hm
    rw [hres g r hm]
    have hkey := hc
    obtain ⟨b, hb, -⟩ := hkey
    rcases hpair.read hL hb with ⟨g', -, hn⟩ | ⟨hr, -⟩
    · exact absurd hc hn
    · exact hr

/-- A start that is killed in the key's file. -/
theorem certificate_heals_cut :
    let d : Files TlsPath (List UInt8) :=
      (Files.write (fun _ => none) (.cert, markedTls.certPem 7)).write (.key, [40])
    (∀ g r, .started g r ∈ [TlsEvent.killed (L := markedTls) (some sevens)] →
      (∃ g' : Generated markedTls, r = .ok g'.tls) ∨
        r = .error .generate ∧ g = none ∨ r = .error .parseKey ∨ r = .error .noPkcs8Key) ∧
    (∀ g, (∃ t, (loadOrCreateTls markedTls (some g) d).2 = .ok t) ↔ ¬KeyCut markedTls d) ∧
    (KeyCut markedTls d → (∃ g, .killed g ∈ [TlsEvent.killed (L := markedTls) (some sevens)]) ∧
      ∀ es' d'', Run (TlsStep markedTls) d es' d'' →
        d'' = d ∧ ∀ g r, .started g r ∈ es' → r = .error .parseKey ∨ r = .error .noPkcs8Key) :=
  have hcut : [40] <+: markedTls.keyPem 7 := ⟨[7, 41], rfl⟩
  certificate_heals markedTls markedTls_reads (fun _ => none) _ rfl [.killed (some sevens)]
    (.single (.killed sevens (.inl rfl) (.after (.within _ TlsPath.key hcut []))))

end DdrdeskHost
