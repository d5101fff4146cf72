import DocumentTable.Proofs.Except
import DocumentTable.Proofs.Utf8
import DocumentTable.Text.Base64

/-!
# Binary data as text and back

Strict decoding is the inverse of encoding: it accepts the texts that encoding writes and no others.

## Main definitions

* `Base64.Canonical`: groups of four symbols, of which the last one may be cut short

## Main results

* `Base64.decode_eq_ok`: decoding gives bytes for their text and for no other one
* `Base64.canonical_iff`: the texts of bytes are the canonical ones
-/

namespace DocumentTable.Base64

variable {v : Variant}

/-- The symbols in the order of their numbers. -/
def Variant.alphabet : Variant → List UInt8
  | .standard => bytesOf "ABCDEFGHIJKLMNOPQRSTUVWXYZabcdefghijklmnopqrstuvwxyz0123456789+/"
  | .urlSafe => bytesOf "ABCDEFGHIJKLMNOPQRSTUVWXYZabcdefghijklmnopqrstuvwxyz0123456789-_"

/-- The padding in the place of symbols that the last group lacks. -/
def Variant.fill (v : Variant) (lacking : Nat) : List UInt8 :=
  if v.padded then List.replicate lacking padding else []

/-- Groups of four symbols, for three bytes each. The last group may have fewer, for two bytes or
for one. Its last symbol then has bits beyond those of the bytes, and none of them is set. -/
inductive Canonical (v : Variant) : List UInt8 → Prop
  | nil : Canonical v []
  | one {i j : Nat} {a b : UInt8} : v.alphabet[i]? = some a → v.alphabet[16 * j]? = some b →
      Canonical v ([a, b] ++ v.fill 2)
  | two {i j k : Nat} {a b c : UInt8} : v.alphabet[i]? = some a → v.alphabet[j]? = some b →
      v.alphabet[4 * k]? = some c → Canonical v ([a, b, c] ++ v.fill 1)
  | three {i j k l : Nat} {a b c d : UInt8} {rest : List UInt8} : v.alphabet[i]? = some a →
      v.alphabet[j]? = some b → v.alphabet[k]? = some c → v.alphabet[l]? = some d →
      Canonical v rest → Canonical v (a :: b :: c :: d :: rest)

/-! ### Symbols -/

/-- The alphabet has sixty-four symbols, and the symbol of a number stands at its place. -/
theorem alphabet_getElem? {n : Nat} {b : UInt8} :
    v.alphabet[n]? = some b ↔ n < 64 ∧ symbol v n = b := by
  have length : v.alphabet.length = 64 := by cases v <;> decide
  have all : ∀ n : Fin 64, v.alphabet[n.val]? = some (symbol v n) := by cases v <;> decide
  constructor
  · intro h
    have lt : n < 64 := length ▸ (List.getElem?_eq_some_iff.1 h).1
    have := all ⟨n, lt⟩
    exact ⟨lt, Option.some.inj (this.symm.trans h)⟩
  · rintro ⟨lt, rfl⟩
    exact all ⟨n, lt⟩

/-- The number of a symbol is found again, as no symbol stands twice in the alphabet. -/
theorem number?_symbol {n : Nat} (h : n < 64) : number? v (symbol v n) = some n := by
  have all : ∀ n : Fin 64, number? v (symbol v n) = some n.val := by cases v <;> decide
  exact all ⟨n, h⟩

/-- A byte that has a number is the symbol of this number. Together with the converse, symbols and
numbers are the same thing. -/
theorem symbol_of_number? {b : UInt8} {n : Nat} (h : number? v b = some n) :
    n < 64 ∧ symbol v n = b := by
  have all : ∀ m < 256, ∀ n ∈ number? v (UInt8.ofNat m), n < 64 ∧ symbol v n = UInt8.ofNat m := by
    cases v <;> decide +kernel
  have := all b.toNat b.toNat_lt n
  rw [UInt8.ofNat_toNat] at this
  exact this h

theorem symbol_ne_padding {n : Nat} (h : n < 64) : symbol v n ≠ padding := by
  have all : ∀ n : Fin 64, symbol v n ≠ padding := by cases v <;> decide
  exact all ⟨n, h⟩

/-- Symbols are among the first characters, and so are encoded in one byte. -/
theorem symbol_lt {n : Nat} (h : n < 64) : (symbol v n).toNat < 128 := by
  have all : ∀ n : Fin 64, (symbol v n).toNat < 128 := by cases v <;> decide
  exact all ⟨n, h⟩

/-- A symbol is read as its number, wherever it stands. -/
theorem numberAt_symbol (offset : Nat) {n : Nat} (h : n < 64) :
    numberAt v offset (symbol v n) = .ok n := by
  rw [numberAt, number?_symbol h]

/-- What is read as a number is the symbol of it. -/
theorem numberAt_eq_ok {offset : Nat} {b : UInt8} {n : Nat} (h : numberAt v offset b = .ok n) :
    n < 64 ∧ symbol v n = b := by
  rw [numberAt] at h
  split at h
  · next found =>
      cases h
      exact symbol_of_number? found
  · cases h

/-! ### Decoding of groups -/

/-- A symbol in the last group is counted and added to its number, as long as no padding came before
it. -/
theorem readTail_symbol {start : Nat} {tail : Tail} (paddings : tail.paddings = 0) {n : Nat}
    (h : n < 64) (rest : List UInt8) :
    readTail v start tail (symbol v n :: rest) =
      readTail v start ⟨tail.value * 64 + n, tail.count + 1, symbol v n, 0⟩ rest := by
  rw [readTail, if_neg (symbol_ne_padding h), paddings, if_neg (Nat.lt_irrefl 0),
    numberAt_symbol _ h]
  rfl

/-- Paddings in the last group are counted. They may only follow two symbols or more. -/
theorem readTail_replicate {start : Nat} {tail : Tail} (h : 2 ≤ tail.count) (paddings : Nat) :
    readTail v start tail (List.replicate paddings padding) =
      .ok { tail with paddings := tail.paddings + paddings } := by
  induction paddings generalizing tail with
  | zero => rfl
  | succ n ih =>
      have enough : ¬tail.count + tail.paddings < 2 := by omega
      have counted : 2 ≤ ({ tail with paddings := tail.paddings + 1 } : Tail).count := h
      rw [List.replicate_succ, readTail, if_pos rfl, if_neg enough, ih counted]
      exact congrArg (fun paddings => Except.ok { tail with paddings := paddings })
        (Nat.add_right_comm _ _ _)

/-- What a group is filled up with is read, be it paddings or nothing. -/
theorem readTail_fill {start : Nat} {tail : Tail} (h : 2 ≤ tail.count) (lacking : Nat) :
    readTail v start tail (v.fill lacking) =
      .ok { tail with paddings := tail.paddings + if v.padded then lacking else 0 } := by
  rw [Variant.fill]
  cases v.padded with
  | true => exact readTail_replicate h lacking
  | false => rfl

/-- The last group is read as a whole, with its paddings, while the groups before it have four
symbols. -/
theorem decodeQuads_of_length_le {group : List UInt8} (nonempty : group ≠ [])
    (h : group.length ≤ 4) (offset : Nat) :
    decodeQuads v offset group = (readTail v offset {} group).bind (finishTail v offset) := by
  match group with
  | [_] | [_, _] | [_, _, _] | [_, _, _, _] => rfl

/-- A group is filled up with as many paddings as symbols are lacking, or with none. -/
theorem length_fill_le (v : Variant) (lacking : Nat) : (v.fill lacking).length ≤ lacking := by
  rw [Variant.fill]
  split <;> simp

/-- A group of two symbols is decoded to the byte that it holds. The bits beyond the byte must not
be set. -/
theorem decodeQuads_one (offset : Nat) {p q : Nat} (hp : p < 64) (hq : q < 64)
    (unset : q % 16 = 0) :
    decodeQuads v offset ([symbol v p, symbol v q] ++ v.fill 2) =
      .ok [UInt8.ofNat ((p * 64 + q) / 16)] := by
  have short : ([symbol v p, symbol v q] ++ v.fill 2).length ≤ 4 := by
    rw [List.length_append]
    exact Nat.add_le_add_left (length_fill_le v 2) 2
  have bits : (p * 64 + q) % 16 = 0 := by omega
  have byte : (p * 64 + q) / 16 % 256 = (p * 64 + q) / 16 := by omega
  rw [decodeQuads_of_length_le (by simp) short, List.cons_append,
    readTail_symbol rfl hp, List.cons_append, readTail_symbol rfl hq, List.nil_append,
    readTail_fill (by simp)]
  cases v <;> simp [Except.bind, finishTail, Variant.padded, bits, byte, List.range_succ]

/-- A group of three symbols is decoded to the two bytes that it holds. The bits beyond these must
not be set. -/
theorem decodeQuads_two (offset : Nat) {p q r : Nat} (hp : p < 64) (hq : q < 64) (hr : r < 64)
    (unset : r % 4 = 0) :
    decodeQuads v offset ([symbol v p, symbol v q, symbol v r] ++ v.fill 1) =
      .ok [UInt8.ofNat (((p * 64 + q) * 64 + r) / 1024),
        UInt8.ofNat (((p * 64 + q) * 64 + r) / 4 % 256)] := by
  have short : ([symbol v p, symbol v q, symbol v r] ++ v.fill 1).length ≤ 4 := by
    rw [List.length_append]
    exact Nat.add_le_add_left (length_fill_le v 1) 3
  have bits : ((p * 64 + q) * 64 + r) % 4 = 0 := by omega
  have byte : ((p * 64 + q) * 64 + r) / 4 / 256 % 256 = ((p * 64 + q) * 64 + r) / 1024 := by omega
  rw [decodeQuads_of_length_le (by simp) short, List.cons_append,
    readTail_symbol rfl hp, List.cons_append, readTail_symbol rfl hq, List.cons_append,
    readTail_symbol rfl hr, List.nil_append, readTail_fill (by simp)]
  cases v <;> simp [Except.bind, finishTail, Variant.padded, bits, byte, List.range_succ]

/-- A group of four symbols is decoded to the three bytes that it holds, before those of the groups
that follow. -/
theorem decodeQuads_three (offset : Nat) {p q r s : Nat} (hp : p < 64) (hq : q < 64) (hr : r < 64)
    (hs : s < 64) (rest : List UInt8) :
    decodeQuads v offset (symbol v p :: symbol v q :: symbol v r :: symbol v s :: rest) =
      (decodeQuads v (offset + 4) rest).map fun following =>
        UInt8.ofNat ((((p * 64 + q) * 64 + r) * 64 + s) / 65536) ::
          UInt8.ofNat ((((p * 64 + q) * 64 + r) * 64 + s) / 256 % 256) ::
          UInt8.ofNat ((((p * 64 + q) * 64 + r) * 64 + s) % 256) :: following := by
  cases rest with
  | nil =>
      have byte : (((p * 64 + q) * 64 + r) * 64 + s) / 65536 % 256 =
        (((p * 64 + q) * 64 + r) * 64 + s) / 65536 := by omega
      rw [decodeQuads_of_length_le (by simp) (by simp), readTail_symbol rfl hp,
        readTail_symbol rfl hq, readTail_symbol rfl hr, readTail_symbol rfl hs]
      cases v <;>
        simp [Except.bind, Except.map, readTail, finishTail, Variant.padded, decodeQuads, byte,
          List.range_succ, Nat.mod_one]
  | cons e rest =>
      rw [decodeQuads, numberAt_symbol _ hp, numberAt_symbol _ hq, numberAt_symbol _ hr,
        numberAt_symbol _ hs]
      cases decodeQuads v (offset + 4) (e :: rest) <;> rfl

/-! ### Decoding what was encoded -/

/-- A number is a byte by its last eight bits. -/
theorem toNat_ofNat_eq {n : Nat} {b : UInt8} (h : n % 256 = b.toNat) : UInt8.ofNat n = b := by
  apply UInt8.toNat_inj.1
  rw [UInt8.toNat_ofNat']
  exact h

/-- The symbols of bytes are decoded to the bytes, by induction on them in groups of three. -/
theorem decodeQuads_encodeBytes (offset : Nat) (bytes : List UInt8) :
    decodeQuads v offset (encodeBytes v bytes) = .ok bytes := by
  induction bytes using encodeBytes.induct generalizing offset with
  | case1 => rfl
  | case2 a =>
      have lt := a.toNat_lt
      rw [encodeBytes]
      refine (decodeQuads_one offset (p := a.toNat * 16 / 64) (q := a.toNat * 16 % 64)
        (by omega) (by omega) (by omega)).trans ?_
      congr 2
      exact toNat_ofNat_eq (by omega)
  | case3 a b =>
      have lt := a.toNat_lt
      have lt' := b.toNat_lt
      rw [encodeBytes]
      -- the number that the bytes make is named, so that omega sees one variable for it
      obtain ⟨m, hm⟩ : ∃ m, m = a.toNat * 256 + b.toNat := ⟨_, rfl⟩
      rw [← hm]
      refine (decodeQuads_two offset (p := m * 4 / 4096) (q := m * 4 / 64 % 64) (r := m * 4 % 64)
        (by omega) (by omega) (by omega) (by omega)).trans ?_
      have whole : (m * 4 / 4096 * 64 + m * 4 / 64 % 64) * 64 + m * 4 % 64 = m * 4 := by omega
      rw [whole, toNat_ofNat_eq (b := a) (by omega), toNat_ofNat_eq (b := b) (by omega)]
  | case4 a b c rest ih =>
      have lt := a.toNat_lt
      have lt' := b.toNat_lt
      have lt'' := c.toNat_lt
      rw [encodeBytes]
      obtain ⟨m, hm⟩ : ∃ m, m = (a.toNat * 256 + b.toNat) * 256 + c.toNat := ⟨_, rfl⟩
      rw [← hm, decodeQuads_three offset (by omega) (by omega) (by omega) (by omega), ih]
      have whole :
          ((m / 262144 * 64 + m / 4096 % 64) * 64 + m / 64 % 64) * 64 + m % 64 = m := by
        omega
      rw [whole, toNat_ofNat_eq (b := a) (by omega), toNat_ofNat_eq (b := b) (by omega),
        toNat_ofNat_eq (b := c) (by omega)]
      rfl

/-! ### Encoding what was decoded -/

/-- Only paddings follow a padding. A symbol there is refused. -/
theorem exists_of_readTail_padded {start : Nat} {tail tail' : Tail} {group : List UInt8}
    (padded : tail.paddings ≠ 0) (h : readTail v start tail group = .ok tail') :
    ∃ k, group = List.replicate k padding ∧
      tail' = { tail with paddings := tail.paddings + k } := by
  induction group generalizing tail with
  | nil =>
      cases h
      exact ⟨0, rfl, rfl⟩
  | cons b rest ih =>
      rw [readTail] at h
      split at h
      · next isPadding =>
          split at h
          · cases h
          · obtain ⟨k, rfl, rfl⟩ := ih (Nat.succ_ne_zero _) h
            exact ⟨k + 1, isPadding ▸ rfl, by rw [Nat.add_assoc, Nat.add_comm 1 k]⟩
      · rw [if_pos (Nat.pos_of_ne_zero padded)] at h
        cases h

/-- A last group that can be read is made of symbols and of paddings after them, and what is kept of
it is the number that the symbols make. -/
theorem exists_of_readTail {start : Nat} {tail tail' : Tail} {group : List UInt8}
    (unpadded : tail.paddings = 0) (h : readTail v start tail group = .ok tail') :
    ∃ numbers : List Nat,
      group = numbers.map (symbol v) ++ List.replicate tail'.paddings padding ∧
      (∀ n ∈ numbers, n < 64) ∧ tail'.count = tail.count + numbers.length ∧
      tail'.value = numbers.foldl (fun value n => value * 64 + n) tail.value := by
  induction group generalizing tail with
  | nil =>
      cases h
      exact ⟨[], by rw [unpadded]; rfl, nofun, rfl, rfl⟩
  | cons b rest ih =>
      by_cases isPadding : b = padding
      · rw [readTail, if_pos isPadding] at h
        split at h
        · cases h
        · obtain ⟨k, rfl, rfl⟩ := exists_of_readTail_padded (Nat.succ_ne_zero _) h
          refine ⟨[], ?_, nofun, rfl, rfl⟩
          rw [isPadding, ← List.replicate_succ, unpadded, Nat.zero_add, Nat.add_comm]
          rfl
      · rw [readTail, if_neg isPadding, if_neg (unpadded ▸ Nat.lt_irrefl 0)] at h
        cases found : numberAt v (start + tail.count) b with
        | error e =>
            rw [found] at h
            cases h
        | ok n =>
            rw [found] at h
            obtain ⟨lt, rfl⟩ := numberAt_eq_ok found
            obtain ⟨numbers, rfl, small, count, value⟩ := ih rfl h
            refine ⟨n :: numbers, rfl, ?_, ?_, value⟩
            · rw [List.forall_mem_cons]
              exact ⟨lt, small⟩
            · rw [count, List.length_cons]
              show tail.count + 1 + numbers.length = _
              omega

/-- A last group that is decoded has enough symbols, is filled up and has no bit set beyond those of
its bytes. Each of these is a refusal of its own. -/
theorem complete_of_finishTail {start : Nat} {tail : Tail} {bytes : List UInt8}
    (h : finishTail v start tail = .ok bytes) :
    2 ≤ tail.count ∧ (v.padded = true → (tail.count + tail.paddings) % 4 = 0) ∧
      (v.padded = false → tail.paddings = 0) ∧
      tail.value % Nat.pow 2 (tail.count * 6 - tail.count * 6 / 8 * 8) = 0 := by
  rw [finishTail] at h
  split at h
  · cases h
  · next enough =>
      split at h
      · cases h
      · next filled =>
          split at h
          · cases h
          · next bare =>
              split at h
              · cases h
              · next unset =>
                  refine ⟨by omega, fun padded => ?_, fun padded => ?_, Decidable.not_not.1 unset⟩
                  · simpa [padded] using filled
                  · simpa [padded] using bare

/-- A last group that is decoded is made of two symbols, three or four, and is filled up. These are
the groups that bytes are encoded to. -/
theorem group_of_decodeQuads {offset : Nat} {group bytes : List UInt8} (nonempty : group ≠ [])
    (short : group.length ≤ 4) (h : decodeQuads v offset group = .ok bytes) :
    (∃ p q, p < 64 ∧ q < 64 ∧ q % 16 = 0 ∧ group = [symbol v p, symbol v q] ++ v.fill 2) ∨
      (∃ p q r, p < 64 ∧ q < 64 ∧ r < 64 ∧ r % 4 = 0 ∧
        group = [symbol v p, symbol v q, symbol v r] ++ v.fill 1) ∨
      ∃ p q r s, p < 64 ∧ q < 64 ∧ r < 64 ∧ s < 64 ∧
        group = [symbol v p, symbol v q, symbol v r, symbol v s] := by
  rw [decodeQuads_of_length_le nonempty short] at h
  cases read : readTail v offset {} group with
  | error e =>
      rw [read] at h
      cases h
  | ok tail =>
      rw [read] at h
      obtain ⟨enough, filled, bare, unset⟩ := complete_of_finishTail h
      obtain ⟨numbers, rfl, small, count, value⟩ := exists_of_readTail rfl read
      rw [List.length_append, List.length_map, List.length_replicate] at short
      have count : tail.count = numbers.length := by
        rw [count]
        exact Nat.zero_add _
      have fill : List.replicate tail.paddings padding = v.fill (4 - numbers.length) := by
        rw [Variant.fill]
        cases padded : v.padded with
        | true =>
            have := filled padded
            rw [if_pos rfl]
            congr 1
            omega
        | false => rw [bare padded]; rfl
      rw [fill]
      rw [count, value] at unset
      -- how many symbols there are decides which of their bits belong to no byte
      match numbers with
      | [] | [_] => simp at count; omega
      | [p, q] =>
          simp only [List.forall_mem_cons] at small
          have bits : ((0 * 64 + p) * 64 + q) % 16 = 0 := by simpa using unset
          exact .inl ⟨p, q, small.1, small.2.1, by omega, rfl⟩
      | [p, q, r] =>
          simp only [List.forall_mem_cons] at small
          have bits : (((0 * 64 + p) * 64 + q) * 64 + r) % 4 = 0 := by simpa using unset
          exact .inr (.inl ⟨p, q, r, small.1, small.2.1, small.2.2.1, by omega, rfl⟩)
      | [p, q, r, s] =>
          simp only [List.forall_mem_cons] at small
          refine .inr (.inr ⟨p, q, r, s, small.1, small.2.1, small.2.2.1, small.2.2.2.1, ?_⟩)
          rw [Variant.fill]
          cases v.padded <;> rfl
      | _ :: _ :: _ :: _ :: _ :: _ => simp at short; omega

/-- Symbols that are decoded are canonical, by induction on their groups. -/
theorem Canonical.of_decodeQuads {offset : Nat} {symbols bytes : List UInt8}
    (h : decodeQuads v offset symbols = .ok bytes) : Canonical v symbols := by
  induction offset, symbols using decodeQuads.induct generalizing bytes with
  | case1 offset => exact .nil
  | case2 offset a b c d e rest ih =>
      rw [decodeQuads] at h
      obtain ⟨p, hp, h⟩ := exists_of_except_bind h
      obtain ⟨q, hq, h⟩ := exists_of_except_bind h
      obtain ⟨r, hr, h⟩ := exists_of_except_bind h
      obtain ⟨s, hs, h⟩ := exists_of_except_bind h
      obtain ⟨following, hfollowing, h⟩ := exists_of_except_bind h
      exact .three (alphabet_getElem?.2 (numberAt_eq_ok hp))
        (alphabet_getElem?.2 (numberAt_eq_ok hq)) (alphabet_getElem?.2 (numberAt_eq_ok hr))
        (alphabet_getElem?.2 (numberAt_eq_ok hs)) (ih hfollowing)
  | case3 offset group nonempty short =>
      -- a group that is not followed by another symbol is the last one
      have length : group.length ≤ 4 := by
        match group with
        | [] | [_] | [_, _] | [_, _, _] | [_, _, _, _] => simp
        | a :: b :: c :: d :: e :: rest => exact absurd rfl (short a b c d e rest)
      obtain ⟨p, q, hp, hq, unset, rfl⟩ | ⟨p, q, r, hp, hq, hr, unset, rfl⟩ |
        ⟨p, q, r, s, hp, hq, hr, hs, rfl⟩ := group_of_decodeQuads nonempty length h
      · have last : 16 * (q / 16) = q := by omega
        exact .one (alphabet_getElem?.2 ⟨hp, rfl⟩) (j := q / 16)
          (alphabet_getElem?.2 (last.symm ▸ ⟨hq, rfl⟩))
      · have last : 4 * (r / 4) = r := by omega
        exact .two (alphabet_getElem?.2 ⟨hp, rfl⟩) (alphabet_getElem?.2 ⟨hq, rfl⟩) (k := r / 4)
          (alphabet_getElem?.2 (last.symm ▸ ⟨hr, rfl⟩))
      · exact .three (alphabet_getElem?.2 ⟨hp, rfl⟩) (alphabet_getElem?.2 ⟨hq, rfl⟩)
          (alphabet_getElem?.2 ⟨hr, rfl⟩) (alphabet_getElem?.2 ⟨hs, rfl⟩) .nil

/-- A number below 256 is kept as a byte. -/
theorem toNat_ofNat_of_lt {n : Nat} (h : n < 256) : (UInt8.ofNat n).toNat = n := by
  rw [UInt8.toNat_ofNat']
  exact Nat.mod_eq_of_lt h

/-- Canonical symbols are those of some bytes, which are put together from the bits of each group.
-/
theorem Canonical.exists_encodeBytes {symbols : List UInt8} (h : Canonical v symbols) :
    ∃ bytes, encodeBytes v bytes = symbols := by
  induction h with
  | nil => exact ⟨[], rfl⟩
  | @one i j a b ha hb =>
      obtain ⟨hi, rfl⟩ := alphabet_getElem?.1 ha
      obtain ⟨hj, rfl⟩ := alphabet_getElem?.1 hb
      refine ⟨[UInt8.ofNat (i * 4 + j)], ?_⟩
      rw [encodeBytes, toNat_ofNat_of_lt (by omega)]
      have first : (i * 4 + j) * 16 / 64 = i := by omega
      have second : (i * 4 + j) * 16 % 64 = 16 * j := by omega
      rw [first, second]
      rfl
  | @two i j k a b c ha hb hc =>
      obtain ⟨hi, rfl⟩ := alphabet_getElem?.1 ha
      obtain ⟨hj, rfl⟩ := alphabet_getElem?.1 hb
      obtain ⟨hk, rfl⟩ := alphabet_getElem?.1 hc
      obtain ⟨m, hm⟩ : ∃ m, m = (i * 64 + j) * 16 + k := ⟨_, rfl⟩
      refine ⟨[UInt8.ofNat (m / 256), UInt8.ofNat (m % 256)], ?_⟩
      have whole : m / 256 * 256 + m % 256 = m := by omega
      rw [encodeBytes, toNat_ofNat_of_lt (by omega), toNat_ofNat_of_lt (by omega), whole]
      have first : m * 4 / 4096 = i := by omega
      have second : m * 4 / 64 % 64 = j := by omega
      have third : m * 4 % 64 = 4 * k := by omega
      rw [first, second, third]
      rfl
  | @three i j k l a b c d rest ha hb hc hd _ ih =>
      obtain ⟨hi, rfl⟩ := alphabet_getElem?.1 ha
      obtain ⟨hj, rfl⟩ := alphabet_getElem?.1 hb
      obtain ⟨hk, rfl⟩ := alphabet_getElem?.1 hc
      obtain ⟨hl, rfl⟩ := alphabet_getElem?.1 hd
      obtain ⟨following, rfl⟩ := ih
      obtain ⟨m, hm⟩ : ∃ m, m = ((i * 64 + j) * 64 + k) * 64 + l := ⟨_, rfl⟩
      refine ⟨UInt8.ofNat (m / 65536) :: UInt8.ofNat (m / 256 % 256) :: UInt8.ofNat (m % 256) ::
        following, ?_⟩
      have whole : (m / 65536 * 256 + m / 256 % 256) * 256 + m % 256 = m := by omega
      rw [encodeBytes, toNat_ofNat_of_lt (by omega), toNat_ofNat_of_lt (by omega),
        toNat_ofNat_of_lt (by omega), whole]
      have first : m / 262144 = i := by omega
      have second : m / 4096 % 64 = j := by omega
      have third : m / 64 % 64 = k := by omega
      have fourth : m % 64 = l := by omega
      rw [first, second, third, fourth]

theorem canonical_encodeBytes (bytes : List UInt8) : Canonical v (encodeBytes v bytes) :=
  .of_decodeQuads (decodeQuads_encodeBytes 0 bytes)

/-! ### Texts -/

/-- The symbols of bytes never end with a single symbol beyond the groups. One symbol has fewer bits
than a byte. -/
theorem length_encodeBytes_ne (bytes : List UInt8) : (encodeBytes v bytes).length % 4 ≠ 1 := by
  induction bytes using encodeBytes.induct with
  | case1 => simp [encodeBytes]
  | case2 a => cases v <;> simp [encodeBytes, Variant.padded]
  | case3 a b => cases v <;> simp [encodeBytes, Variant.padded]
  | case4 a b c rest ih =>
      rw [encodeBytes]
      simp only [List.length_cons]
      omega

/-- Symbols are decoded to the bytes that they are the symbols of, and to nothing else. -/
theorem decodeBytes_eq_ok {symbols bytes : List UInt8} :
    decodeBytes v symbols = .ok bytes ↔ symbols = encodeBytes v bytes := by
  constructor
  · intro h
    have decoded : decodeQuads v 0 symbols = .ok bytes := by
      rw [decodeBytes] at h
      split at h
      · split at h
        · cases h
        · exact h
      · next none =>
          rw [List.getLast?_eq_none_iff.1 none]
          exact h
    -- what is decoded is canonical, and canonical symbols are decoded to what they were made of
    obtain ⟨bytes', rfl⟩ := (Canonical.of_decodeQuads decoded).exists_encodeBytes
    rw [decodeQuads_encodeBytes] at decoded
    rw [Except.ok.inj decoded]
  · rintro rfl
    rw [decodeBytes]
    split
    · rw [if_neg, decodeQuads_encodeBytes]
      simp [length_encodeBytes_ne]
    · next none =>
        have decoded := decodeQuads_encodeBytes (v := v) 0 bytes
        rw [List.getLast?_eq_none_iff.1 none] at decoded
        exact decoded

/-- The alphabet is among the first characters. -/
theorem alphabet_lt {n : Nat} {b : UInt8} (h : v.alphabet[n]? = some b) : b.toNat < 128 := by
  obtain ⟨lt, rfl⟩ := alphabet_getElem?.1 h
  exact symbol_lt lt

theorem forall_mem_fill_lt (lacking : Nat) : ∀ b ∈ v.fill lacking, b.toNat < 128 := by
  intro b mem
  rw [Variant.fill] at mem
  split at mem
  · rw [List.eq_of_mem_replicate mem]
    decide
  · cases mem

/-- Canonical symbols are characters of one byte, so that texts and symbols may be taken for each
other. -/
theorem Canonical.forall_mem_lt {symbols : List UInt8} (h : Canonical v symbols) :
    ∀ b ∈ symbols, b.toNat < 128 := by
  induction h with
  | nil => nofun
  | one ha hb =>
      simp only [List.cons_append, List.nil_append, List.forall_mem_cons]
      exact ⟨alphabet_lt ha, alphabet_lt hb, forall_mem_fill_lt 2⟩
  | two ha hb hc =>
      simp only [List.cons_append, List.nil_append, List.forall_mem_cons]
      exact ⟨alphabet_lt ha, alphabet_lt hb, alphabet_lt hc, forall_mem_fill_lt 1⟩
  | three ha hb hc hd _ ih =>
      simp only [List.forall_mem_cons]
      exact ⟨alphabet_lt ha, alphabet_lt hb, alphabet_lt hc, alphabet_lt hd, ih⟩

/-- The bytes of a text in base 64 are its symbols, as each of them is a character of one byte. -/
theorem bytesOf_encode (bytes : List UInt8) :
    bytesOf (encode v bytes) = encodeBytes v bytes :=
  bytesOf_ascii (canonical_encodeBytes bytes).forall_mem_lt

/-- Decoding gives bytes for their text and for no other one. A text is therefore decoded to the
bytes that it was made of, and no two texts to the same bytes. -/
theorem decode_eq_ok {text : String} {bytes : List UInt8} :
    decode v text = .ok bytes ↔ text = encode v bytes := by
  rw [decode, decodeBytes_eq_ok, ← bytesOf_encode]
  exact ⟨bytesOf_injective, congrArg bytesOf⟩

/-- The texts of bytes are those of canonical symbols. Which texts can be decoded is thus known
without decoding them. -/
theorem canonical_iff {text : String} :
    Canonical v (bytesOf text) ↔ ∃ bytes, text = encode v bytes := by
  constructor
  · intro h
    obtain ⟨bytes, same⟩ := h.exists_encodeBytes
    rw [← bytesOf_encode] at same
    exact ⟨bytes, bytesOf_injective same.symm⟩
  · rintro ⟨bytes, rfl⟩
    rw [bytesOf_encode]
    exact canonical_encodeBytes bytes

end DocumentTable.Base64
