import DdrdeskHost.Lib.Bytes

namespace DdrdeskHost
open Bytes
set_option autoImplicit true

/-- The ways the query fails; `indexOutOfBounds` stands for a panic. -/
inductive StunError
  | bind
  | connect
  | send
  | recv
  | shortStun
  | noMappedAddress
  | indexOutOfBounds
  deriving DecidableEq

structure Ipv4Addr where
  a : UInt8
  b : UInt8
  c : UInt8
  d : UInt8
  deriving DecidableEq

def Ipv4Addr.xor (x y : Ipv4Addr) : Ipv4Addr :=
  ⟨x.a ^^^ y.a, x.b ^^^ y.b, x.c ^^^ y.c, x.d ^^^ y.d⟩

structure SocketAddr where
  ip : Ipv4Addr
  port : UInt16
  deriving DecidableEq

namespace Stun

def magic : Ipv4Addr := ⟨0x21, 0x12, 0xa4, 0x42⟩

def byteAt (s : List UInt8) (i : Nat) : Except StunError UInt8 :=
  match s[i]? with
  | some b => .ok b
  | none => .error .indexOutOfBounds

/-- The slice `s[i..i + n]`. -/
def slice (s : List UInt8) (i n : Nat) : Except StunError (List UInt8) :=
  if i + n ≤ s.length then .ok ((s.drop i).take n) else .error .indexOutOfBounds

/-- What the loop takes from one attribute; the port in it is read and not used. -/
def addressOf (atype : Nat) (attr : List UInt8) : Except StunError (Option Ipv4Addr) :=
  if (atype = 0x0020 ∨ atype = 0x0001) ∧ 8 ≤ attr.length then do
    let family ← byteAt attr 1
    let _ ← byteAt attr 2
    let _ ← byteAt attr 3
    if family = 0x01 then
      let ip : Ipv4Addr := ⟨← byteAt attr 4, ← byteAt attr 5, ← byteAt attr 6, ← byteAt attr 7⟩
      return some (if atype = 0x0020 then ip.xor magic else ip)
    else return none
  else return none

/-- The loop of `parse_xor_mapped` over the attributes, from an index on. -/
def walk (msg : List UInt8) (fallbackPort : UInt16) (i : Nat) : Except StunError SocketAddr :=
  if i + 4 ≤ msg.length then do
    let atype := ofBE [← byteAt msg i, ← byteAt msg (i + 1)]
    let alen := ofBE [← byteAt msg (i + 2), ← byteAt msg (i + 3)]
    if msg.length < i + 4 + alen then throw .noMappedAddress
    let attr ← slice msg (i + 4) alen
    match ← addressOf atype attr with
    | some ip => return { ip := ip, port := fallbackPort }
    | none => walk msg fallbackPort (i + 4 + (alen + 3) / 4 * 4)
  else throw .noMappedAddress
termination_by msg.length - i
decreasing_by omega

def parseXorMapped (msg : List UInt8) (fallbackPort : UInt16) : Except StunError SocketAddr :=
  if msg.length < 20 then .error .shortStun else walk msg fallbackPort 20

/-- The random part of a request. -/
structure TransactionId where
  bytes : List UInt8
  length : bytes.length = 12

def bindingRequest (tid : TransactionId) : List UInt8 :=
  [0x00, 0x01, 0x00, 0x00, magic.a, magic.b, magic.c, magic.d] ++ tid.bytes

/-- What the network answers: `received` is `none` after three seconds, or when `recv` fails. -/
structure Answers where
  bound : Bool
  connected : Bool
  sent : Bool
  received : Option (List UInt8)

/-- The requests sent, and the result; `recv` fills a buffer of 512 bytes at most. -/
def publicAddr (localPort : UInt16) (tid : TransactionId) (net : Answers) :
    List (List UInt8) × Except StunError SocketAddr :=
  if ¬net.bound then ([], .error .bind)
  else if ¬net.connected then ([], .error .connect)
  else if ¬net.sent then ([], .error .send)
  else
    ([bindingRequest tid],
      match net.received with
      | none => .error .recv
      | some datagram => parseXorMapped (datagram.take 512) localPort)

/-- The IPv4 address in an attribute of this type and with this value. -/
def mapped (typ : Nat) (value : List UInt8) : Option Ipv4Addr :=
  if (typ = 0x0020 ∨ typ = 0x0001) ∧ 8 ≤ value.length ∧ value.getD 1 0 = 0x01 then
    let ip : Ipv4Addr := ⟨value.getD 4 0, value.getD 5 0, value.getD 6 0, value.getD 7 0⟩
    some (if typ = 0x0020 then ip.xor magic else ip)
  else none

/-- An attribute as it stands in a message, padded to a multiple of four bytes. -/
structure Attr where
  typ : UInt16
  value : List UInt8
  pad : List UInt8
  value_length : value.length < 2 ^ 16
  pad_length : value.length + pad.length = (value.length + 3) / 4 * 4

namespace Attr

def bytes (a : Attr) : List UInt8 :=
  toBE 2 a.typ.toNat ++ (toBE 2 a.value.length ++ (a.value ++ a.pad))

def mapped (a : Attr) : Option Ipv4Addr := Stun.mapped a.typ.toNat a.value

/-- An address as a XOR-MAPPED-ADDRESS; the first byte and the port may be anything. -/
def xorMapped (b p q : UInt8) (ip : Ipv4Addr) : Attr where
  typ := 0x0020
  value := [b, 0x01, p, q, (ip.xor magic).a, (ip.xor magic).b, (ip.xor magic).c, (ip.xor magic).d]
  pad := []
  value_length := by simp
  pad_length := by simp

end Attr

theorem Ipv4Addr.xor_xor (x y : Ipv4Addr) : (x.xor y).xor y = x := by
  simp only [Ipv4Addr.xor, UInt8.xor_assoc, UInt8.xor_self, UInt8.xor_zero]

theorem Attr.mapped_xorMapped (b p q : UInt8) (ip : Ipv4Addr) :
    (Attr.xorMapped b p q ip).mapped = some ip := by
  have h := Ipv4Addr.xor_xor ip magic
  exact congrArg some h

theorem byteAt_eq {s : List UInt8} (h : i < s.length) : byteAt s i = .ok (s.getD i 0) := by
  simp only [byteAt, List.getElem?_eq_getElem h, List.getD_eq_getElem?_getD, Option.getD_some]

theorem addressOf_eq (typ : Nat) (value : List UInt8) :
    addressOf typ value = .ok (mapped typ value) := by
  rw [addressOf, mapped]
  by_cases h : (typ = 0x0020 ∨ typ = 0x0001) ∧ 8 ≤ value.length
  · obtain ⟨ht, hlen⟩ := h
    have hbyte : ∀ i < 8, byteAt value i = .ok (value.getD i 0) := fun i hi =>
      byteAt_eq (Nat.lt_of_lt_of_le hi hlen)
    rw [if_pos ⟨ht, hlen⟩, hbyte 1 (by decide), hbyte 2 (by decide), hbyte 3 (by decide),
      hbyte 4 (by decide), hbyte 5 (by decide), hbyte 6 (by decide), hbyte 7 (by decide)]
    by_cases hf : value.getD 1 0 = 0x01
    · rw [if_pos ⟨ht, hlen, hf⟩]
      simp only [bind, Except.bind, hf, ↓reduceIte]
      rfl
    · have hno : ¬((typ = 0x0020 ∨ typ = 0x0001) ∧ 8 ≤ value.length ∧ value.getD 1 0 = 0x01) :=
        fun h => hf h.2.2
      rw [if_neg hno]
      simp only [bind, Except.bind, hf, ↓reduceIte]
      rfl
  · have hno : ¬((typ = 0x0020 ∨ typ = 0x0001) ∧ 8 ≤ value.length ∧ value.getD 1 0 = 0x01) :=
      fun h' => h ⟨h'.1, h'.2.1⟩
    rw [if_neg h, if_neg hno]
    rfl

theorem byteAt_append (p : List UInt8) (x : UInt8) (s : List UInt8) :
    byteAt (p ++ x :: s) p.length = .ok x := by
  simp only [byteAt, List.getElem?_append_right (Nat.le_refl _), Nat.sub_self,
    List.getElem?_cons_zero]

theorem walk_end (port : UInt16) (h : msg.length < i + 4) :
    walk msg port i = .error .noMappedAddress := by
  rw [walk, if_neg (Nat.not_le.2 h)]
  rfl

theorem walk_step (p r : List UInt8) (a b c e : UInt8) (port : UInt16) :
    walk (p ++ a :: b :: c :: e :: r) port p.length =
      if r.length < ofBE [c, e] then .error .noMappedAddress
      else
        match mapped (ofBE [a, b]) (r.take (ofBE [c, e])) with
        | some ip => .ok { ip := ip, port := port }
        | none => walk (p ++ a :: b :: c :: e :: r) port
            (p.length + 4 + (ofBE [c, e] + 3) / 4 * 4) := by
  have hlen : (p ++ a :: b :: c :: e :: r).length = p.length + 4 + r.length := by
    simp only [List.length_append, List.length_cons]
    omega
  have hle : p.length + 4 ≤ (p ++ a :: b :: c :: e :: r).length := by omega
  have ha := byteAt_append p a (b :: c :: e :: r)
  have hb := byteAt_append (p ++ [a]) b (c :: e :: r)
  have hc := byteAt_append (p ++ [a, b]) c (e :: r)
  have he := byteAt_append (p ++ [a, b, c]) e r
  simp only [List.length_append, List.length_cons, List.length_nil, Nat.zero_add, Nat.reduceAdd,
    List.append_assoc, List.cons_append, List.nil_append] at hb hc he
  have hdrop : (p ++ a :: b :: c :: e :: r).drop (p.length + 4) = r := by
    rw [List.drop_append, List.drop_eq_nil_of_le (by omega), Nat.add_sub_cancel_left]
    rfl
  rw [walk, if_pos hle, ha, hb, hc, he]
  simp only [bind, Except.bind, hlen]
  by_cases hcut : r.length < ofBE [c, e]
  · have hlt : p.length + 4 + r.length < p.length + 4 + ofBE [c, e] := by omega
    rw [if_pos hlt, if_pos hcut]
    rfl
  · have hge : ¬p.length + 4 + r.length < p.length + 4 + ofBE [c, e] := by omega
    have hin : p.length + 4 + ofBE [c, e] ≤ p.length + 4 + r.length := by omega
    rw [if_neg hge, if_neg hcut, slice, hlen, if_pos hin, hdrop]
    simp only [addressOf_eq]
    cases mapped (ofBE [a, b]) (r.take (ofBE [c, e])) with
    | none => rfl
    | some ip => rfl

/-- The bytes in front of a value, and the value. -/
def head (typ : UInt16) (value : List UInt8) : List UInt8 :=
  toBE 2 typ.toNat ++ (toBE 2 value.length ++ value)

theorem walk_head (h : value.length < 2 ^ 16) (p rest : List UInt8) (typ port : UInt16) :
    walk (p ++ (head typ value ++ rest)) port p.length =
      match mapped typ.toNat value with
      | some ip => .ok { ip := ip, port := port }
      | none => walk (p ++ (head typ value ++ rest)) port
          (p.length + 4 + (value.length + 3) / 4 * 4) := by
  obtain ⟨a, b, hab⟩ : ∃ a b, toBE 2 typ.toNat = [a, b] := ⟨_, _, rfl⟩
  obtain ⟨c, e, hce⟩ : ∃ c e, toBE 2 value.length = [c, e] := ⟨_, _, rfl⟩
  have htyp : ofBE [a, b] = typ.toNat := by
    rw [← hab]
    exact ofBE_toBE typ.toNat_lt
  have hlen : ofBE [c, e] = value.length := by
    rw [← hce]
    exact ofBE_toBE h
  have hstep := walk_step p (value ++ rest) a b c e port
  have hge : ¬(value ++ rest).length < value.length := by
    rw [List.length_append]
    omega
  rw [htyp, hlen, if_neg hge, List.take_left] at hstep
  simpa only [head, hab, hce, List.cons_append, List.nil_append, List.append_assoc] using hstep

theorem length_head (typ : UInt16) (value : List UInt8) :
    (head typ value).length = 4 + value.length := by
  simp only [head, List.length_append, length_toBE]
  omega

theorem Attr.bytes_eq (a : Attr) : a.bytes = head a.typ a.value ++ a.pad := by
  simp only [Attr.bytes, head, List.append_assoc]

theorem Attr.length_bytes (a : Attr) : a.bytes.length = 4 + (a.value.length + 3) / 4 * 4 := by
  rw [a.bytes_eq, List.length_append, length_head, ← a.pad_length]
  omega

theorem walk_attr (p rest : List UInt8) (a : Attr) (port : UInt16) :
    walk (p ++ (a.bytes ++ rest)) port p.length =
      match a.mapped with
      | some ip => .ok { ip := ip, port := port }
      | none => walk (p ++ a.bytes ++ rest) port (p ++ a.bytes).length := by
  have h := walk_head a.value_length p (a.pad ++ rest) a.typ port
  rw [← List.append_assoc (head a.typ a.value), ← a.bytes_eq] at h
  rw [h, List.length_append, a.length_bytes, List.append_assoc, Nat.add_assoc]
  rfl

theorem walk_attrs {attrs : List Attr} (h : ∀ a ∈ attrs, a.mapped = none) (p rest : List UInt8)
    (port : UInt16) :
    walk (p ++ (attrs.flatMap Attr.bytes ++ rest)) port p.length =
      walk (p ++ attrs.flatMap Attr.bytes ++ rest) port
        (p ++ attrs.flatMap Attr.bytes).length := by
  induction attrs generalizing p with
  | nil => simp only [List.flatMap_nil, List.nil_append, List.append_nil]
  | cons a attrs ih =>
    have hstep := walk_attr p (attrs.flatMap Attr.bytes ++ rest) a port
    rw [h a List.mem_cons_self] at hstep
    have hrest := ih (fun b hb => h b (List.mem_cons_of_mem a hb)) (p ++ a.bytes)
    simp only [List.flatMap_cons, List.append_assoc] at hstep hrest ⊢
    exact hstep.trans hrest

theorem walk_findSome (p : List UInt8) (attrs : List Attr) (port : UInt16) :
    walk (p ++ attrs.flatMap Attr.bytes) port p.length =
      match attrs.findSome? Attr.mapped with
      | some ip => .ok { ip := ip, port := port }
      | none => .error .noMappedAddress := by
  induction attrs generalizing p with
  | nil =>
    apply walk_end
    rw [List.flatMap_nil, List.append_nil]
    omega
  | cons a attrs ih =>
    have hstep := walk_attr p (attrs.flatMap Attr.bytes) a port
    rw [List.flatMap_cons, hstep, List.findSome?_cons]
    cases ha : a.mapped with
    | some ip => rfl
    | none => exact ih (p ++ a.bytes)

theorem ofBE_pair_lt (a b : UInt8) : ofBE [a, b] < 2 ^ 16 := by
  have hlt : ofBE [a, b] < 256 ^ 2 := ofBE_lt [a, b]
  omega

theorem exists_head (a b c e : UInt8) (h : value.length = ofBE [c, e]) :
    ∃ typ : UInt16, typ.toNat = ofBE [a, b] ∧ head typ value = a :: b :: c :: e :: value := by
  have htyp : (UInt16.ofNat (ofBE [a, b])).toNat = ofBE [a, b] :=
    UInt16.toNat_ofNat_of_lt' (ofBE_pair_lt a b)
  have hab : toBE 2 (ofBE [a, b]) = [a, b] := toBE_ofBE [a, b]
  have hce : toBE 2 (ofBE [c, e]) = [c, e] := toBE_ofBE [c, e]
  refine ⟨UInt16.ofNat (ofBE [a, b]), htyp, ?_⟩
  rw [head, htyp, hab, h, hce]
  rfl

/-- The bytes begin with attributes without an address, and go on with one that has this address;
what comes behind its value is not looked at. -/
def Carries (s : List UInt8) (ip : Ipv4Addr) : Prop :=
  ∃ (attrs : List Attr) (typ : UInt16) (value rest : List UInt8),
    s = attrs.flatMap Attr.bytes ++ (head typ value ++ rest) ∧
    (∀ a ∈ attrs, a.mapped = none) ∧ value.length < 2 ^ 16 ∧ mapped typ.toNat value = some ip

theorem Carries.cons {a : Attr} (ha : a.mapped = none) (h : Carries s ip) :
    Carries (a.bytes ++ s) ip := by
  obtain ⟨attrs, typ, value, rest, rfl, hattrs, hlen, hm⟩ := h
  refine ⟨a :: attrs, typ, value, rest, ?_, ?_, hlen, hm⟩
  · rw [List.flatMap_cons, List.append_assoc]
  · intro x hx
    rcases List.mem_cons.1 hx with rfl | hx
    · exact ha
    · exact hattrs x hx

theorem walk_carries (h : Carries s ip) (p : List UInt8) (port : UInt16) :
    walk (p ++ s) port p.length = .ok { ip := ip, port := port } := by
  obtain ⟨attrs, typ, value, rest, rfl, hattrs, hlen, hm⟩ := h
  rw [walk_attrs hattrs, walk_head hlen, hm]

theorem walk_cases (p s : List UInt8) (port : UInt16) :
    (∃ ip, Carries s ip) ∨ walk (p ++ s) port p.length = .error .noMappedAddress := by
  generalize hn : s.length = n
  induction n using Nat.strongRecOn generalizing p s with
  | ind n ih =>
    by_cases hlen : s.length < 4
    · right
      apply walk_end
      rw [List.length_append]
      omega
    · obtain ⟨front, r, hs⟩ : ∃ front r, readExact 4 s = some (front, r) := by
        rw [readExact, if_pos (Nat.le_of_not_lt hlen)]
        exact ⟨_, _, rfl⟩
      obtain ⟨rfl, hfront⟩ := readExact_eq_some hs
      obtain ⟨a, b, c, e, rfl⟩ := List.length_eq_four.1 hfront
      have hstep := walk_step p r a b c e port
      by_cases hcut : r.length < ofBE [c, e]
      · rw [if_pos hcut] at hstep
        exact .inr hstep
      · obtain ⟨value, rest, hv⟩ : ∃ value rest,
            readExact (ofBE [c, e]) r = some (value, rest) := by
          rw [readExact, if_pos (Nat.le_of_not_lt hcut)]
          exact ⟨_, _, rfl⟩
        obtain ⟨rfl, hvalue⟩ := readExact_eq_some hv
        obtain ⟨typ, htyp, hhead⟩ := exists_head a b c e hvalue
        have hlt : value.length < 2 ^ 16 := hvalue ▸ ofBE_pair_lt c e
        have hs : [a, b, c, e] ++ (value ++ rest) = head typ value ++ rest := by
          rw [hhead]
          rfl
        cases hm : mapped typ.toNat value with
        | some ip => exact .inl ⟨ip, [], typ, value, rest, hs, by simp, hlt, hm⟩
        | none =>
          -- the loop goes on behind the padding, if that is there whole
          by_cases hpad : rest.length < (value.length + 3) / 4 * 4 - value.length
          · right
            have hstep := walk_head hlt p rest typ port
            rw [hm] at hstep
            rw [hs, hstep]
            apply walk_end
            rw [List.length_append, List.length_append, length_head]
            omega
          · obtain ⟨pad, rest', hp⟩ : ∃ pad rest',
                readExact ((value.length + 3) / 4 * 4 - value.length) rest = some (pad, rest') := by
              rw [readExact, if_pos (Nat.le_of_not_lt hpad)]
              exact ⟨_, _, rfl⟩
            obtain ⟨rfl, hplen⟩ := readExact_eq_some hp
            let attr : Attr := ⟨typ, value, pad, hlt, by omega⟩
            have hattr : attr.mapped = none := hm
            have hbytes : head typ value ++ (pad ++ rest') = attr.bytes ++ rest' := by
              rw [attr.bytes_eq, List.append_assoc]
            have hstep := walk_attr p rest' attr port
            rw [hattr] at hstep
            have hrest : rest'.length < n := by
              rw [← hn, hs, hbytes, List.length_append, attr.length_bytes]
              omega
            rw [hs, hbytes, hstep]
            rcases ih _ hrest (p ++ attr.bytes) rest' rfl with ⟨ip, hc⟩ | he
            · exact .inl ⟨ip, hc.cons hattr⟩
            · exact .inr he

theorem parseXorMapped_append (hh : header.length = 20) (s : List UInt8) (port : UInt16) :
    parseXorMapped (header ++ s) port = walk (header ++ s) port header.length := by
  have hlen : ¬(header ++ s).length < 20 := by
    rw [List.length_append]
    omega
  rw [parseXorMapped, if_neg hlen, hh]

theorem parseXorMapped_findSome (hh : header.length = 20) (attrs : List Attr) (port : UInt16) :
    parseXorMapped (header ++ attrs.flatMap Attr.bytes) port =
      match attrs.findSome? Attr.mapped with
      | some ip => .ok { ip := ip, port := port }
      | none => .error .noMappedAddress := by
  rw [parseXorMapped_append hh, walk_findSome]

theorem parseXorMapped_cases (msg : List UInt8) (port : UInt16) :
    (∃ header s ip, msg = header ++ s ∧ header.length = 20 ∧ Carries s ip) ∨
      parseXorMapped msg port = .error .shortStun ∨
      parseXorMapped msg port = .error .noMappedAddress := by
  cases h : readExact 20 msg with
  | none =>
    rw [parseXorMapped, if_pos (readExact_eq_none.1 h)]
    exact .inr (.inl rfl)
  | some p =>
    obtain ⟨header, s⟩ := p
    obtain ⟨rfl, hh⟩ := readExact_eq_some h
    rcases walk_cases header s port with ⟨ip, hc⟩ | he
    · exact .inl ⟨header, s, ip, rfl, hh, hc⟩
    · rw [parseXorMapped_append hh, he]
      exact .inr (.inr rfl)

/-- An address is found exactly in messages that carry it behind any twenty bytes. -/
theorem parseXorMapped_eq_ok (msg : List UInt8) (port : UInt16) (addr : SocketAddr) :
    parseXorMapped msg port = .ok addr ↔
      ∃ header s, msg = header ++ s ∧ header.length = 20 ∧ Carries s addr.ip ∧
        addr.port = port := by
  constructor
  · intro h
    rcases parseXorMapped_cases msg port with ⟨header, s, ip, rfl, hh, hc⟩ | he | he
    · rw [parseXorMapped_append hh, walk_carries hc] at h
      cases h
      exact ⟨header, s, rfl, hh, hc, rfl⟩
    · cases he.symm.trans h
    · cases he.symm.trans h
  · rintro ⟨header, s, rfl, hh, hc, hp⟩
    rw [parseXorMapped_append hh, walk_carries hc, ← hp]

/-- The datagram is a Binding Success Response to the request, with the magic cookie. -/
structure Responds (tid : TransactionId) (datagram : List UInt8) : Prop where
  typ : datagram.take 2 = [0x01, 0x01]
  cookie : (datagram.drop 4).take 4 = [0x21, 0x12, 0xa4, 0x42]
  transaction : (datagram.drop 8).take 12 = tid.bytes

end Stun

open Stun

/-- The attributes are walked without leaving the datagram; of well-formed ones, the first that
holds an IPv4 address gives it, and without one the parsing fails. -/
theorem parse_xor_mapped_attributes (port : UInt16) :
    (∀ msg, parseXorMapped msg port ≠ .error .indexOutOfBounds) ∧
    (∀ (header : List UInt8) (attrs : List Attr), header.length = 20 →
      parseXorMapped (header ++ attrs.flatMap Attr.bytes) port =
        match attrs.findSome? Attr.mapped with
        | some ip => .ok { ip := ip, port := port }
        | none => .error .noMappedAddress) ∧
    ∀ (header : List UInt8) (attrs rest : List Attr) b p q ip, header.length = 20 →
      (∀ a ∈ attrs, a.mapped = none) →
      parseXorMapped (header ++ (attrs ++ Attr.xorMapped b p q ip :: rest).flatMap Attr.bytes)
        port = .ok { ip := ip, port := port } := by
  refine ⟨?_, ?_, ?_⟩
  · intro msg h
    rcases parseXorMapped_cases msg port with ⟨header, s, ip, rfl, hh, hc⟩ | he | he
    · rw [parseXorMapped_append hh, walk_carries hc] at h
      cases h
    · cases he.symm.trans h
    · cases he.symm.trans h
  · intro header attrs hh
    exact parseXorMapped_findSome hh attrs port
  · intro header attrs rest b p q ip hh hattrs
    have hnone : attrs.findSome? Attr.mapped = none := List.findSome?_eq_none_iff.2 hattrs
    rw [parseXorMapped_findSome hh, List.findSome?_append, hnone, List.findSome?_cons,
      Attr.mapped_xorMapped]
    rfl

/-- An address is returned exactly for a datagram that carries it, in its first 512 bytes, behind
twenty bytes that may be anything, whatever the request was. -/
theorem public_addr_of_any_header (localPort : UInt16) (tid : TransactionId) (net : Answers)
    (addr : SocketAddr) :
    (publicAddr localPort tid net).2 = .ok addr ↔
      net.bound = true ∧ net.connected = true ∧ net.sent = true ∧
        ∃ datagram header s, net.received = some datagram ∧ datagram.take 512 = header ++ s ∧
          header.length = 20 ∧ Carries s addr.ip ∧ addr.port = localPort := by
  rw [publicAddr]
  cases net.bound with
  | false => simp
  | true =>
    cases net.connected with
    | false => simp
    | true =>
      cases net.sent with
      | false => simp
      | true =>
        cases net.received with
        | none => simp
        | some datagram =>
          simp only [not_true_eq_false, ↓reduceIte, parseXorMapped_eq_ok, true_and,
            Option.some.injEq]
          constructor
          · rintro ⟨header, s, hd⟩
            exact ⟨datagram, header, s, rfl, hd⟩
          · rintro ⟨_, header, s, rfl, hd⟩
            exact ⟨header, s, hd⟩

/-- A datagram of another type, without the cookie and with another transaction ID, is accepted. -/
theorem public_addr_of_forged_datagram :
    ¬∀ (localPort : UInt16) (tid : TransactionId) (net : Answers) (addr : SocketAddr),
      (publicAddr localPort tid net).2 = .ok addr →
        ∃ datagram, net.received = some datagram ∧ Responds tid datagram := by
  intro h
  let tid : TransactionId := ⟨List.replicate 12 7, rfl⟩
  let datagram : List UInt8 := List.replicate 20 0 ++ [0, 1, 0, 8, 0, 1, 0, 80, 192, 0, 2, 1]
  have hcarries : Carries [0, 1, 0, 8, 0, 1, 0, 80, 192, 0, 2, 1] ⟨192, 0, 2, 1⟩ :=
    ⟨[], 1, [0, 1, 0, 80, 192, 0, 2, 1], [], by decide, by simp, by decide, by decide⟩
  have hok : parseXorMapped (datagram.take 512) 9000 = .ok ⟨⟨192, 0, 2, 1⟩, 9000⟩ :=
    (parseXorMapped_eq_ok _ 9000 ⟨⟨192, 0, 2, 1⟩, 9000⟩).2
      ⟨List.replicate 20 0, _, rfl, List.length_replicate, hcarries, rfl⟩
  obtain ⟨datagram', hd, hr⟩ := h 9000 tid ⟨true, true, true, some datagram⟩ _ hok
  cases hd
  exact absurd hr.typ (by decide)

end DdrdeskHost
