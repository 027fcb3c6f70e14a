-- UTF-8 in both directions. The reader gives back every text that was put
-- into bytes, so a file that a text was written to stands for that text.
import Lectern.Proofs.FailedRun

namespace Lectern

theorem CodePoint.ofNat_of_eq {c : CodePoint} {n : Nat} (h : n = c.val) : ofNat n = c := by
  subst h
  rw [ofNat, dif_pos c.lt]

namespace Utf8

/-! ## The bytes of a character -/

/-- A byte behind the first, which holds six bits. -/
def tailByte (bits : Nat) : UInt8 := UInt8.ofNat (0x80 + bits)

/-- How the number of a code point is shared out to bytes: six bits to each
byte behind the first, and what is left to the first. -/
inductive Shared (c : CodePoint) : List UInt8 → Prop
  | one (h : c.val < 0x80) : Shared c [UInt8.ofNat c.val]
  | two (least : 0x80 ≤ c.val) (h : c.val < 0x800) :
    Shared c [UInt8.ofNat (0xC0 + c.val / 0x40), tailByte (c.val % 0x40)]
  | three (least : 0x800 ≤ c.val) (h : c.val < 0x10000) (hs : c.isSurrogate = false) :
    Shared c [UInt8.ofNat (0xE0 + c.val / 0x1000), tailByte (c.val / 0x40 % 0x40),
      tailByte (c.val % 0x40)]
  | four (least : 0x10000 ≤ c.val) :
    Shared c [UInt8.ofNat (0xF0 + c.val / 0x40000), tailByte (c.val / 0x1000 % 0x40),
      tailByte (c.val / 0x40 % 0x40), tailByte (c.val % 0x40)]

/-- Every code point but a surrogate has bytes. -/
theorem exists_bytes?_eq {c : CodePoint} (hs : c.isSurrogate = false) :
    ∃ bs, bytes? c = some bs ∧ Shared c bs := by
  simp only [bytes?, Nat.div_one, hs]
  by_cases h1 : c.val < 0x80
  · exact ⟨_, if_pos h1, .one h1⟩
  rw [if_neg h1]
  by_cases h2 : c.val < 0x800
  · exact ⟨_, if_pos h2, .two (by omega) h2⟩
  rw [if_neg h2, if_neg Bool.false_ne_true]
  by_cases h3 : c.val < 0x10000
  · exact ⟨_, if_pos h3, .three (by omega) h3 hs⟩
  · exact ⟨_, if_neg h3, .four (by omega)⟩

theorem toNat_ofNat {n : Nat} (h : n < 0x100) : (UInt8.ofNat n).toNat = n :=
  UInt8.toNat_ofNat_of_lt h

/-! ## The first byte of a character -/

section

variable (offset : Nat) {b : UInt8} {k : Nat}

theorem begin?_of_two (hb : b.toNat = 0xC0 + k) (least : 2 ≤ k) (h : k < 0x20) :
    Partial.begin? offset b = some ⟨offset, b, 1, k, 1, 0x80, 0xBF⟩ := by
  rw [Partial.begin?, hb, if_pos (by omega), Nat.add_sub_cancel_left]

/-- The first of three bytes keeps out what fits into two, and surrogates. -/
theorem begin?_of_three (hb : b.toNat = 0xE0 + k) (h : k < 0x10) :
    Partial.begin? offset b = some ⟨offset, b, 1, k, 2, if k = 0 then 0xA0 else 0x80,
      if k = 0xD then 0x9F else 0xBF⟩ := by
  rw [Partial.begin?, hb]
  by_cases h0 : k = 0
  · subst h0
    rfl
  by_cases hD : k = 0xD
  · subst hD
    rfl
  rw [if_neg (by omega), if_neg (by omega), if_neg (by omega), if_pos (by omega),
    Nat.add_sub_cancel_left, if_neg h0, if_neg hD]

/-- The first of four bytes keeps out what fits into three, and what is too
large. -/
theorem begin?_of_four (hb : b.toNat = 0xF0 + k) (h : k < 5) :
    Partial.begin? offset b = some ⟨offset, b, 1, k, 3, if k = 0 then 0x90 else 0x80,
      if k = 4 then 0x8F else 0xBF⟩ := by
  rw [Partial.begin?, hb]
  obtain rfl | rfl | rfl | rfl | rfl : k = 0 ∨ k = 1 ∨ k = 2 ∨ k = 3 ∨ k = 4 := by omega
  all_goals rfl

theorem decodeFrom_begin {p : Partial} (hb : 0x80 ≤ b.toNat)
    (h : Partial.begin? offset b = some p) (read : Text) (rest : List UInt8) :
    decodeFrom offset none read (b :: rest) = decodeFrom (offset + 1) (some p) read rest := by
  rw [decodeFrom, if_neg (by omega), h]

end

/-! ## The bytes behind it -/

section

variable (offset : Nat) {p : Partial} {bits : Nat} (hbits : bits < 0x40)
  (hlow : p.low ≤ 0x80 + bits) (hhigh : 0x80 + bits ≤ p.high) (read : Text) (rest : List UInt8)

include hbits hlow hhigh

theorem decodeFrom_tail {k : Nat} (hm : p.missing = k + 2) :
    decodeFrom offset (some p) read (tailByte bits :: rest) =
      decodeFrom (offset + 1)
        (some ⟨p.offset, p.first, p.length + 1, p.value * 0x40 + bits, k + 1, 0x80, 0xBF⟩)
        read rest := by
  have hb : (tailByte bits).toNat = 0x80 + bits := toNat_ofNat (by omega)
  rw [decodeFrom]
  simp only
  rw [hb, if_pos ⟨hlow, hhigh⟩, Partial.push, hb, hm, Nat.add_sub_cancel_left]
  rfl

theorem decodeFrom_last (hm : p.missing = 1) :
    decodeFrom offset (some p) read (tailByte bits :: rest) =
      decodeFrom (offset + 1) none (CodePoint.ofNat (p.value * 0x40 + bits) :: read) rest := by
  have hb : (tailByte bits).toNat = 0x80 + bits := toNat_ofNat (by omega)
  rw [decodeFrom]
  simp only
  rw [hb, if_pos ⟨hlow, hhigh⟩, Partial.push, hb, hm, Nat.add_sub_cancel_left]
  rfl

end

/-! ## What is written is read -/

/-- The bytes of a character are read as that character, whatever comes
behind them. -/
theorem Shared.decodeFrom_append {c : CodePoint} {bs : List UInt8} (h : Shared c bs)
    (offset : Nat) (read : Text) (rest : List UInt8) :
    decodeFrom offset none read (bs ++ rest) =
      decodeFrom (offset + bs.length) none (c :: read) rest := by
  have hlt := c.lt
  cases h with
  | one h =>
    have hb : (UInt8.ofNat c.val).toNat = c.val := toNat_ofNat (by omega)
    rw [List.singleton_append, decodeFrom]
    simp only [hb]
    rw [if_pos h, CodePoint.ofNat_of_eq rfl, List.length_singleton]
  | two least h =>
    have hb : (UInt8.ofNat (0xC0 + c.val / 0x40)).toNat = 0xC0 + c.val / 0x40 :=
      toNat_ofNat (by omega)
    have hbegin := begin?_of_two offset hb (by omega) (by omega)
    simp only [List.cons_append, List.nil_append]
    rw [decodeFrom_begin offset (by omega) hbegin]
    rw [decodeFrom_last _ (by omega) (Nat.le_add_right _ _) (by simp only; omega) read rest rfl]
    rw [CodePoint.ofNat_of_eq (c := c) (by simp only; omega)]
    rfl
  | three least h hs =>
    have hb : (UInt8.ofNat (0xE0 + c.val / 0x1000)).toNat = 0xE0 + c.val / 0x1000 :=
      toNat_ofNat (by omega)
    have hbegin := begin?_of_three offset hb (by omega)
    simp only [CodePoint.isSurrogate, Bool.and_eq_false_iff, decide_eq_false_iff_not] at hs
    simp only [List.cons_append, List.nil_append]
    rw [decodeFrom_begin offset (by omega) hbegin]
    rw [decodeFrom_tail _ (by omega) (by simp only; split <;> omega)
      (by simp only; split <;> omega) read _ (k := 0) rfl]
    rw [decodeFrom_last _ (by omega) (Nat.le_add_right _ _) (by simp only; omega) read rest rfl]
    rw [CodePoint.ofNat_of_eq (c := c) (by simp only; omega)]
    rfl
  | four least =>
    have hb : (UInt8.ofNat (0xF0 + c.val / 0x40000)).toNat = 0xF0 + c.val / 0x40000 :=
      toNat_ofNat (by omega)
    have hbegin := begin?_of_four offset hb (by omega)
    simp only [List.cons_append, List.nil_append]
    rw [decodeFrom_begin offset (by omega) hbegin]
    rw [decodeFrom_tail _ (by omega) (by simp only; split <;> omega)
      (by simp only; split <;> omega) read _ (k := 1) rfl]
    rw [decodeFrom_tail _ (by omega) (Nat.le_add_right _ _) (by simp only; omega) read _
      (k := 0) rfl]
    rw [decodeFrom_last _ (by omega) (Nat.le_add_right _ _) (by simp only; omega) read rest rfl]
    rw [CodePoint.ofNat_of_eq (c := c) (by simp only; omega)]
    rfl

theorem decodeFrom_flatMap {t : Text} (h : ∀ c ∈ t, c.isSurrogate = false) (offset : Nat)
    (read : Text) :
    decodeFrom offset none read (t.flatMap fun c => (bytes? c).getD []) =
      .ok (read.reverse ++ t) := by
  induction t generalizing offset read with
  | nil => simp [decodeFrom]
  | cons c t ih =>
    obtain ⟨hc, ht⟩ := List.forall_mem_cons.mp h
    obtain ⟨bs, hbs, hshared⟩ := exists_bytes?_eq hc
    rw [List.flatMap_cons, hbs, Option.getD_some, hshared.decodeFrom_append, ih ht]
    simp

/-- A text without surrogates can be put into bytes, and these are read as
the text. -/
theorem exists_encode_eq_ok {t : Text} (h : ∀ c ∈ t, c.isSurrogate = false) :
    ∃ bytes, encode t = .ok bytes ∧ decode bytes = .ok t := by
  cases he : encode t with
  | error u =>
    obtain ⟨c, hc, hs⟩ := exists_encode_eq_error.mp ⟨u, he⟩
    exact absurd hs (by simp [h c hc])
  | ok bytes =>
    refine ⟨bytes, rfl, ?_⟩
    unfold encode at he
    split at he
    · cases he
    · cases he
      rw [decode, decodeFrom_flatMap h]
      rfl

end Utf8

/-! ## Texts of the program -/

theorem CodePoint.isSurrogate_ofChar (c : Char) : (ofChar c).isSurrogate = false := by
  have hvalid : c.toNat < 0xD800 ∨ 0xDFFF < c.toNat ∧ c.toNat < 0x110000 := c.valid
  have hne : ¬ (0xD800 ≤ c.toNat ∧ c.toNat < 0xE000) := by omega
  exact (Bool.decide_and _ _).symm.trans (decide_eq_false hne)

/-- Fixed lines hold no surrogate. -/
theorem Text.isSurrogate_ofLines {lines : List String} {p : CodePoint} (h : p ∈ ofLines lines) :
    p.isSurrogate = false := by
  obtain ⟨line, -, hp⟩ := List.mem_flatMap.mp h
  rcases List.mem_append.mp hp with hp | hp
  · obtain ⟨c, -, rfl⟩ := List.mem_map.mp hp
    exact CodePoint.isSurrogate_ofChar c
  · rw [List.mem_singleton.mp hp]
    rfl

/-- A standard deck holds no surrogate if its frames hold none. -/
theorem Config.isSurrogate_deck_standard {slides : List Slide}
    (h : ((slides.flatMap fun s => s.frame ++ Markup.newline).all fun p => !p.isSurrogate) = true) :
    ∀ p ∈ Config.standard.deck slides, p.isSurrogate = false := by
  intro p hp
  rcases List.mem_append.mp hp with hp | hp
  · rcases List.mem_append.mp hp with hp | hp
    · exact Text.isSurrogate_ofLines hp
    · simpa using List.all_eq_true.mp h p hp
  · exact Text.isSurrogate_ofLines hp

end Lectern
