import N42.ByteStrings

/-!
The recursive length prefix encoding of byte strings and lists, and its
unambiguity: an encoded item can be cut off the front of a byte string in at
most one way.
-/

namespace N42.RlpEncoding

open ByteStrings

/-- What an encoder is handed: a byte string or a list of items. -/
inductive Item where
  | bytes (value : List UInt8)
  | list (items : List Item)

/-- The tag byte of a value of `size` bytes; the size itself follows the tag when it
does not fit into it. -/
def putHead (smallTag largeTag : UInt8) (size : Nat) : List UInt8 :=
  if size < 56 then
    [smallTag + UInt8.ofNat size]
  else
    (largeTag + UInt8.ofNat (bigEndian size).length) :: bigEndian size

def encodeStringHeader (size : Nat) : List UInt8 :=
  putHead 0x80 0xB7 size

def encodeListHeader (size : Nat) : List UInt8 :=
  putHead 0xC0 0xF7 size

def encodeString (value : List UInt8) : List UInt8 :=
  match value with
  | [x] => if x ≤ 0x7F then [x] else encodeStringHeader 1 ++ [x]
  | _ => encodeStringHeader value.length ++ value

def encodeUint (value : Nat) : List UInt8 :=
  if value = 0 then
    [0x80]
  else if value < 128 then
    [UInt8.ofNat value]
  else
    encodeStringHeader (bigEndian value).length ++ bigEndian value

mutual

def encode : Item → List UInt8
  | .bytes value => encodeString value
  | .list items => encodeListHeader (encodeAll items).length ++ encodeAll items

def encodeAll : List Item → List UInt8
  | [] => []
  | item :: items => encode item ++ encodeAll items

end

variable {value : List UInt8}

theorem encodeString_of_not_small (h : ∀ x, value = [x] → ¬ x ≤ 0x7F) :
    encodeString value = encodeStringHeader value.length ++ value := by
  unfold encodeString
  split
  · rename_i x
    rw [if_neg (h x rfl), List.length_singleton]
  · rfl

theorem encodeUint_eq_encodeString (value : Nat) :
    encodeUint value = encodeString (bigEndian value) := by
  unfold encodeUint
  split
  · rename_i hzero
    subst hzero
    rfl
  · rename_i hpos
    split
    · rename_i hsmall
      have hle : UInt8.ofNat value ≤ 0x7F := by
        rw [UInt8.le_iff_toNat_le, UInt8.toNat_ofNat']
        have : (0x7F : UInt8).toNat = 127 := rfl
        omega
      rw [bigEndian_of_lt hpos (by omega)]
      simp [encodeString, hle]
    · rename_i hlarge
      refine (encodeString_of_not_small ?_).symm
      intro x hx hle
      have hlt : value < 256 ^ 1 := by
        rw [← bigEndian_length_le_iff, hx, List.length_singleton]
      rw [bigEndian_of_lt hpos (by omega), List.singleton_inj] at hx
      subst hx
      rw [UInt8.le_iff_toNat_le, UInt8.toNat_ofNat'] at hle
      have : (0x7F : UInt8).toNat = 127 := rfl
      omega

theorem bigEndian_size_bounds {size : Nat} (hlarge : ¬ size < 56) (hsize : size < 2 ^ 64) :
    1 ≤ (bigEndian size).length ∧ (bigEndian size).length ≤ 8 := by
  constructor
  · by_contra hlen
    have hle : (bigEndian size).length ≤ 0 := by omega
    rw [bigEndian_length_le_iff] at hle
    omega
  · rw [bigEndian_length_le_iff]
    omega

theorem putHead_head (smallTag largeTag : UInt8) {size : Nat}
    (htags : smallTag.toNat + 55 = largeTag.toNat) (hlarge : largeTag.toNat + 8 < 256)
    (hsize : size < 2 ^ 64) :
    ∃ tag rest, putHead smallTag largeTag size = tag :: rest ∧
      smallTag.toNat ≤ tag.toNat ∧ tag.toNat ≤ largeTag.toNat + 8 := by
  unfold putHead
  split
  · refine ⟨_, _, rfl, ?_⟩
    rw [UInt8.toNat_add, UInt8.toNat_ofNat']
    omega
  · rename_i hbig
    have hlen := bigEndian_size_bounds hbig hsize
    refine ⟨_, _, rfl, ?_⟩
    rw [UInt8.toNat_add, UInt8.toNat_ofNat']
    omega

theorem putHead_append_inj {smallTag largeTag : UInt8} {p q r t : List UInt8}
    (htags : smallTag.toNat + 55 = largeTag.toNat)
    (hp : p.length < 2 ^ 64) (hq : q.length < 2 ^ 64)
    (h : putHead smallTag largeTag p.length ++ (p ++ r) =
      putHead smallTag largeTag q.length ++ (q ++ t)) :
    p = q ∧ r = t := by
  have hlength : p.length = q.length := by
    unfold putHead at h
    split at h <;> split at h <;> rename_i hps hqs
    all_goals
      have hhead := congrArg UInt8.toNat (List.cons.inj h).1
      rw [UInt8.toNat_add, UInt8.toNat_add, UInt8.toNat_ofNat', UInt8.toNat_ofNat'] at hhead
    · omega
    · have := bigEndian_size_bounds hqs hq
      omega
    · have := bigEndian_size_bounds hps hp
      omega
    · have hpn := bigEndian_size_bounds hps hp
      have hqn := bigEndian_size_bounds hqs hq
      have hlen : (bigEndian p.length).length = (bigEndian q.length).length := by omega
      exact bigEndian_injective (List.append_inj (List.cons.inj h).2 hlen).1
  rw [hlength] at h
  exact List.append_inj (List.append_cancel_left h) hlength

theorem encodeString_cases (value : List UInt8) :
    (∃ x, value = [x] ∧ x.toNat < 128 ∧ encodeString value = [x]) ∨
      encodeString value = encodeStringHeader value.length ++ value := by
  by_cases h : ∃ x, value = [x] ∧ x ≤ 0x7F
  · obtain ⟨x, rfl, hx⟩ := h
    refine .inl ⟨x, rfl, ?_, by simp [encodeString, hx]⟩
    have hnat := UInt8.le_iff_toNat_le.mp hx
    have : (0x7F : UInt8).toNat = 127 := rfl
    omega
  · refine .inr (encodeString_of_not_small fun x hx hle => h ⟨x, hx, hle⟩)

theorem encodeStringHeader_head {size : Nat} (hsize : size < 2 ^ 64) :
    ∃ tag rest, encodeStringHeader size = tag :: rest ∧ 128 ≤ tag.toNat ∧ tag.toNat < 192 := by
  obtain ⟨tag, rest, heq, hlow, hhigh⟩ := putHead_head 0x80 0xB7 rfl (by decide) hsize
  exact ⟨tag, rest, heq, hlow, Nat.lt_succ_of_le hhigh⟩

theorem encodeListHeader_head (size : Nat) (hsize : size < 2 ^ 64) :
    ∃ tag rest, encodeListHeader size = tag :: rest ∧ 192 ≤ tag.toNat := by
  obtain ⟨tag, rest, heq, hlow, -⟩ := putHead_head 0xC0 0xF7 rfl (by decide) hsize
  exact ⟨tag, rest, heq, hlow⟩

theorem encodeString_append_inj {p q r t : List UInt8}
    (hp : p.length < 2 ^ 64) (hq : q.length < 2 ^ 64)
    (h : encodeString p ++ r = encodeString q ++ t) : p = q ∧ r = t := by
  obtain ⟨ptag, prest, hptag, hplow, -⟩ := encodeStringHeader_head hp
  obtain ⟨qtag, qrest, hqtag, hqlow, -⟩ := encodeStringHeader_head hq
  rcases encodeString_cases p with ⟨x, rfl, hx, hxe⟩ | hpe <;>
    rcases encodeString_cases q with ⟨y, rfl, hy, hye⟩ | hqe
  · rw [hxe, hye] at h
    exact ⟨by rw [(List.cons.inj h).1], (List.cons.inj h).2⟩
  · rw [hxe, hqe, hqtag] at h
    have := congrArg UInt8.toNat (List.cons.inj h).1
    omega
  · rw [hpe, hye, hptag] at h
    have := congrArg UInt8.toNat (List.cons.inj h).1
    omega
  · rw [hpe, hqe, List.append_assoc, List.append_assoc] at h
    exact putHead_append_inj rfl hp hq h

theorem encodeString_head (hsize : value.length < 2 ^ 64) :
    ∃ tag rest, encodeString value = tag :: rest ∧ tag.toNat < 192 := by
  rcases encodeString_cases value with ⟨x, -, hx, he⟩ | he
  · exact ⟨x, [], he, by omega⟩
  · obtain ⟨tag, rest, htag, -, hhigh⟩ := encodeStringHeader_head hsize
    exact ⟨tag, rest ++ value, by rw [he, htag, List.cons_append], hhigh⟩

theorem length_le_encodeString (value : List UInt8) :
    value.length ≤ (encodeString value).length := by
  rcases encodeString_cases value with ⟨x, rfl, -, he⟩ | he
  · rw [he]
  · rw [he, List.length_append]
    omega

theorem encode_ne_nil {item : Item} (hsize : (encode item).length < 2 ^ 64) : encode item ≠ [] := by
  cases item with
  | bytes value =>
    obtain ⟨tag, rest, htag, -⟩ := encodeString_head ((length_le_encodeString value).trans_lt hsize)
    simp [encode, htag]
  | list items =>
    rw [encode, List.length_append] at hsize
    obtain ⟨tag, rest, htag, -⟩ := encodeListHeader_head (encodeAll items).length (by omega)
    simp [encode, htag]

mutual

theorem encode_append_inj (x y : Item) {r t : List UInt8}
    (hx : (encode x).length < 2 ^ 64) (hy : (encode y).length < 2 ^ 64)
    (h : encode x ++ r = encode y ++ t) : x = y ∧ r = t := by
  match x, y with
  | .bytes p, .bytes q =>
    have hp := (length_le_encodeString p).trans_lt hx
    have hq := (length_le_encodeString q).trans_lt hy
    obtain ⟨rfl, hrt⟩ := encodeString_append_inj hp hq h
    exact ⟨rfl, hrt⟩
  | .bytes p, .list ys =>
    have hp := (length_le_encodeString p).trans_lt hx
    obtain ⟨ptag, prest, hptag, hplow⟩ := encodeString_head hp
    rw [encode, List.length_append] at hy
    obtain ⟨ytag, yrest, hytag, hylow⟩ := encodeListHeader_head (encodeAll ys).length (by omega)
    rw [encode, encode, hptag, hytag] at h
    have := congrArg UInt8.toNat (List.cons.inj h).1
    omega
  | .list xs, .bytes q =>
    have hq := (length_le_encodeString q).trans_lt hy
    obtain ⟨qtag, qrest, hqtag, hqlow⟩ := encodeString_head hq
    rw [encode, List.length_append] at hx
    obtain ⟨xtag, xrest, hxtag, hxlow⟩ := encodeListHeader_head (encodeAll xs).length (by omega)
    rw [encode, encode, hxtag, hqtag] at h
    have := congrArg UInt8.toNat (List.cons.inj h).1
    omega
  | .list xs, .list ys =>
    rw [encode, List.length_append] at hx hy
    rw [encode, encode, List.append_assoc, List.append_assoc] at h
    obtain ⟨hall, hrt⟩ := putHead_append_inj rfl (by omega) (by omega) h
    exact ⟨by rw [encodeAll_inj xs ys (by omega) (by omega) hall], hrt⟩

theorem encodeAll_inj (xs ys : List Item) (hx : (encodeAll xs).length < 2 ^ 64)
    (hy : (encodeAll ys).length < 2 ^ 64) (h : encodeAll xs = encodeAll ys) : xs = ys := by
  match xs, ys with
  | [], [] => rfl
  | [], y :: ys =>
    rw [encodeAll, List.length_append] at hy
    rw [encodeAll, encodeAll] at h
    exact absurd (List.append_eq_nil_iff.mp h.symm).1 (encode_ne_nil (by omega))
  | x :: xs, [] =>
    rw [encodeAll, List.length_append] at hx
    rw [encodeAll, encodeAll] at h
    exact absurd (List.append_eq_nil_iff.mp h).1 (encode_ne_nil (by omega))
  | x :: xs, y :: ys =>
    rw [encodeAll, List.length_append] at hx hy
    rw [encodeAll, encodeAll] at h
    obtain ⟨rfl, hrest⟩ := encode_append_inj x y (by omega) (by omega) h
    rw [encodeAll_inj xs ys (by omega) (by omega) hrest]

end

theorem encodeString_length_le (hsize : value.length < 2 ^ 64) :
    (encodeString value).length ≤ value.length + 9 := by
  rcases encodeString_cases value with ⟨x, rfl, -, he⟩ | he
  · rw [he]
    simp
  · rw [he, encodeStringHeader, putHead, List.length_append]
    split
    · simp
      omega
    · rename_i hlarge
      have := (bigEndian_size_bounds hlarge hsize).2
      rw [List.length_cons]
      omega

theorem encodeAll_strings_length_le (values : List (List UInt8))
    (hsize : ∀ value ∈ values, value.length < 2 ^ 64) :
    (encodeAll (values.map .bytes)).length ≤ (values.map fun value => value.length + 9).sum := by
  induction values with
  | nil => simp [encodeAll]
  | cons value values ih =>
    have hhead := encodeString_length_le (hsize value (by simp))
    have htail := ih fun v hv => hsize v (by simp [hv])
    simp only [List.map_cons, encodeAll, encode, List.length_append, List.sum_cons]
    omega

theorem encodeAll_strings_inj {xs ys : List (List UInt8)}
    (hx : (encodeAll (xs.map .bytes)).length < 2 ^ 64)
    (h : encode (.list (xs.map .bytes)) = encode (.list (ys.map .bytes)))
    (hy : (encodeAll (ys.map .bytes)).length < 2 ^ 64) : xs = ys := by
  rw [encode, encode] at h
  have h' := congrArg (· ++ []) h
  simp only [List.append_assoc] at h'
  obtain ⟨hall, -⟩ := putHead_append_inj rfl hx hy h'
  have hinj : Function.Injective Item.bytes := fun _ _ heq => Item.bytes.inj heq
  exact hinj.list_map (encodeAll_inj _ _ hx hy hall)

end N42.RlpEncoding
