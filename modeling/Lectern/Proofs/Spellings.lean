-- The reader and the grammar. Every spelling of a tree leads the reader past
-- it to the value of the tree, and what the reader takes from a text is such a
-- spelling. The limits are those of the tree.
import Mathlib.Tactic.MkIffOfInductiveProp
import Lectern.Proofs.LongNumbers
import Lectern.Proofs.NumberParts
import Lectern.Proofs.Strings

namespace Lectern.Json

open CodePoint (closeBrace openBrace quotationMark)

variable {limits : Limits} {stack : List Frame} {x : Value}

/-! ## Words and numbers -/

theorem exists_word {c : CodePoint} {left : Text} {v : Value} (h : literal? c = some (left, v)) :
    ∃ w : Word, w.text = c :: left ∧ w.value = v := by
  unfold literal? at h
  split_ifs at h with hn ht hf hN hI
  · cases h
    exact ⟨.null, hn ▸ rfl, rfl⟩
  · cases h
    exact ⟨.true, ht ▸ rfl, rfl⟩
  · cases h
    exact ⟨.false, hf ▸ rfl, rfl⟩
  · cases h
    exact ⟨.nan, hN ▸ rfl, rfl⟩
  · cases h
    exact ⟨.infinity, hI ▸ rfl, rfl⟩

/-- A word is read where a value is awaited. -/
theorem yields_word (w : Word) {rest : Text}
    (h : State.Yields limits ⟨stack, .ended w.value⟩ rest x) :
    State.Yields limits ⟨stack, .value⟩ (w.text ++ rest) x := by
  by_cases hminus : w = .negativeInfinity
  · subst hminus
    exact (yields_of_step rfl).mpr (yields_sign.mpr (.inl ⟨rest, rfl, h⟩))
  · obtain ⟨c, left, htext, hleft, hstep⟩ : ∃ c left, w.text = c :: left ∧ left ≠ [] ∧
        State.step limits .start ⟨stack, .value⟩ c =
          .ok ⟨stack, .literal .start left w.value⟩ := by
      cases w with
      | negativeInfinity => exact absurd rfl hminus
      | _ => exact ⟨_, _, rfl, by decide, rfl⟩
    rw [htext, List.cons_append, yields_of_step hstep, yields_literal stack hleft]
    exact ⟨rest, rfl, h⟩

/-- A digit begins a number without a sign. -/
theorem step_digit {c : CodePoint} (hc : IsDigit c) :
    State.step limits .start ⟨stack, .value⟩ c =
      State.step limits .start (inNumber stack (.ofSign false) .sign) c := by
  obtain ⟨k, hk⟩ := hc
  simp only [State.step, isSpace_of_isDigit ⟨k, hk⟩, startValue_digit hk, numeralStep, hk]
  rfl

/-- A number is read where a value is awaited. -/
theorem yields_number {n : Numeral} {t rest : Text} (ht : n.Spells t)
    (hdigits : n.digits ≤ limits.digits)
    (h : State.Yields limits ⟨stack, .ended n.denoted⟩ rest x) :
    State.Yields limits ⟨stack, .value⟩ (t ++ rest) x := by
  obtain @⟨negative, _, _, _, _, sign, w, f, e, hsign, hw, hf, he⟩ := ht
  have hends : State.Yields limits (inNumber stack (.ofSign negative) .sign)
      (w ++ (f ++ (e ++ rest))) x :=
    yields_sign.mpr (.inr ⟨_, w, _, hw, rfl, _, f, _, hf, rfl, _, _, e, rest, he, rfl,
      ends_iff.mpr ⟨hdigits, h⟩⟩)
  simp only [List.append_assoc]
  cases hsign with
  | minus => exact (yields_of_step rfl).mpr hends
  | none =>
    obtain ⟨c, w, rfl, hc⟩ : ∃ c w', w = c :: w' ∧ IsDigit c := by
      cases hw with
      | zero => exact ⟨_, _, rfl, 0, rfl⟩
      | row h => exact h.exists_cons
    exact (yields_congr (step_digit hc)).mpr hends

/-- Behind a sign, what the reader takes is the rest of a number or of the word
for the lower infinity. -/
theorem exists_numeral {negative : Bool} {sign t : Text} (hsign : Sign negative sign)
    (h : State.Yields limits (inNumber stack (.ofSign negative) .sign) t x) :
    (∃ rest, t = Text.ofString "Infinity" ++ rest ∧
        State.Yields limits ⟨stack, .ended (.float Binary64.negativeInfinity)⟩ rest x) ∨
      ∃ n w rest, Numeral.Spells n (sign ++ w) ∧ t = w ++ rest ∧ n.digits ≤ limits.digits ∧
        State.Yields limits ⟨stack, .ended n.denoted⟩ rest x := by
  rcases yields_sign.mp h with h | ⟨whole, w, _, hw, rfl, fraction, f, _, hf, rfl,
    exponentNegative, exponent, e, rest, he, rfl, hends⟩
  · exact .inl h
  · obtain ⟨hdigits, hrest⟩ := ends_iff.mp hends
    exact .inr ⟨_, _, rest, .mk hsign hw hf he, by simp, hdigits, hrest⟩

/-! ## Names -/

/-- The name of a member is read up to its colon. -/
theorem yields_name {before : Fields} {t : Text} :
    State.Yields limits ⟨stack, .name before⟩ t x ↔
      ∃ name w rest, NameSpells name w ∧ t = w ++ rest ∧
        State.Yields limits ⟨.object before name :: stack, .value⟩ rest x := by
  constructor
  · intro h
    obtain ⟨s, c, t, s', hs, hc, rfl, hstep, h⟩ := exists_step (.name before) trivial nofun h
    by_cases hquote : c = quotationMark
    · subst hquote
      cases hstep
      obtain ⟨w, u, t, rfl, hbody, h⟩ := endsString h
      obtain ⟨s', c, t, s'', hs', hc, rfl, hstep, h⟩ :=
        exists_step (.colon before u) trivial nofun h
      by_cases hcolon : c = CodePoint.ofChar ':'
      · subst hcolon
        cases hstep
        exact ⟨u, _, t, .mk hs (.mk hbody) hs', by simp, h⟩
      · simp [State.step, hc, hcolon] at hstep
    · simp [State.step, hc, hquote] at hstep
  · rintro ⟨name, _, rest, hname, rfl, h⟩
    obtain @⟨s, _, s', hs, hstring, hs'⟩ := hname
    obtain ⟨hbody⟩ := hstring
    have hcolon : State.Yields limits ⟨stack, .colon before name⟩
        (s' ++ CodePoint.ofChar ':' :: rest) x := by
      rw [yields_spaces (.colon before name) trivial stack hs']
      exact (yields_of_step rfl).mpr h
    simp only [List.append_assoc, List.cons_append, List.nil_append]
    rw [yields_spaces (.name before) trivial stack hs]
    exact (yields_of_step rfl).mpr (yields_of_stringBody hbody hcolon)

/-! ## Limits -/

/-- How many arrays and objects stand inside each other in a phrase. -/
def Phrase.depth : Phrase → Nat
  | .value tree | .element tree => tree.depth
  | .items trees => itemsDepth trees
  | .members fields => membersDepth fields

/-- How many digits the longest whole number in a phrase has. -/
def Phrase.digits : Phrase → Nat
  | .value tree | .element tree => tree.digits
  | .items trees => itemsDigits trees
  | .members fields => membersDigits fields

/-- The phrase keeps within the limits, inside this many arrays and objects. -/
@[mk_iff fits_iff]
structure Phrase.Fits (limits : Limits) (around : Nat) (phrase : Phrase) : Prop where
  depth : phrase.depth ≤ limits.depth - around
  digits : phrase.digits ≤ limits.digits

theorem fits_array {trees : List Tree} {around : Nat} :
    (Phrase.value (.array trees)).Fits limits around ↔
      around < limits.depth ∧ (Phrase.items trees).Fits limits (around + 1) := by
  simp only [Phrase.fits_iff, Phrase.depth, Phrase.digits, Tree.depth, Tree.digits]
  omega

theorem fits_object {fields : List (Text × Tree)} {around : Nat} :
    (Phrase.value (.object fields)).Fits limits around ↔
      around < limits.depth ∧ (Phrase.members fields).Fits limits (around + 1) := by
  simp only [Phrase.fits_iff, Phrase.depth, Phrase.digits, Tree.depth, Tree.digits]
  omega

theorem fits_items {tree : Tree} {trees : List Tree} {around : Nat} :
    (Phrase.items (tree :: trees)).Fits limits around ↔
      (Phrase.value tree).Fits limits around ∧ (Phrase.items trees).Fits limits around := by
  simp only [Phrase.fits_iff, Phrase.depth, Phrase.digits, itemsDepth, itemsDigits]
  omega

theorem fits_members {name : Text} {tree : Tree} {fields : List (Text × Tree)} {around : Nat} :
    (Phrase.members ((name, tree) :: fields)).Fits limits around ↔
      (Phrase.value tree).Fits limits around ∧ (Phrase.members fields).Fits limits around := by
  simp only [Phrase.fits_iff, Phrase.depth, Phrase.digits, membersDepth, membersDigits]
  omega

theorem fits_noItems {around : Nat} : (Phrase.items []).Fits limits around :=
  ⟨Nat.zero_le _, Nat.zero_le _⟩

theorem fits_noMembers {around : Nat} : (Phrase.members []).Fits limits around :=
  ⟨Nat.zero_le _, Nat.zero_le _⟩

theorem step_openBracket (h : stack.length < limits.depth) :
    State.step limits .start ⟨stack, .value⟩ (CodePoint.ofChar '[') = .ok ⟨stack, .firstItem⟩ :=
  if_neg (Nat.not_le.mpr h)

theorem step_openBrace (h : stack.length < limits.depth) :
    State.step limits .start ⟨stack, .value⟩ openBrace = .ok ⟨stack, .firstName⟩ :=
  if_neg (Nat.not_le.mpr h)

/-! ## Every spelling is read -/

/-- From where the phrase is awaited, the text leads to where it is read. -/
def Phrase.Leads (limits : Limits) (x : Value) : Phrase → Text → Prop
  | .value tree, t | .element tree, t => ∀ stack rest,
    (Phrase.value tree).Fits limits stack.length →
      State.Yields limits ⟨stack, .ended tree.value⟩ rest x →
        State.Yields limits ⟨stack, .value⟩ (t ++ rest) x
  | .items trees, t => ∀ stack before rest,
    (Phrase.items trees).Fits limits (stack.length + 1) →
      State.Yields limits ⟨stack, .ended (.array (before.reverse ++ itemValues trees))⟩ rest x →
        State.Yields limits ⟨.array before :: stack, .value⟩
          (t ++ CodePoint.ofChar ']' :: rest) x
  | .members fields, t => ∀ stack before rest,
    (Phrase.members fields).Fits limits (stack.length + 1) →
      State.Yields limits ⟨stack, .ended (.object (before.putAll (memberValues fields)))⟩ rest x →
        State.Yields limits ⟨stack, .name before⟩ (t ++ closeBrace :: rest) x

/-- Every spelling of a phrase leads the reader past it. -/
theorem leads_of_spells {phrase : Phrase} {t : Text} (h : Spells phrase t) :
    phrase.Leads limits x t := by
  -- The induction is on the spelling. A container is read from its bracket to
  -- the other one with the frame that it puts on the stack.
  induction h with
  | word w => exact fun stack rest _ hrest => yields_word w hrest
  | number h => exact fun stack rest hfits hrest => yields_number h hfits.digits hrest
  | string h =>
    obtain ⟨hbody⟩ := h
    intro stack rest _ hrest
    simp only [List.append_assoc, List.cons_append, List.nil_append]
    exact (yields_of_step rfl).mpr (yields_of_stringBody hbody hrest)
  | noItems h =>
    intro stack rest hfits hrest
    simp only [List.append_assoc, List.cons_append, List.nil_append]
    rw [yields_of_step (step_openBracket (fits_array.mp hfits).1), yields_firstItem]
    exact .inl ⟨_, rest, h, rfl, hrest⟩
  | array h ih =>
    intro stack rest hfits hrest
    simp only [List.append_assoc, List.cons_append, List.nil_append]
    obtain ⟨hdepth, hfits⟩ := fits_array.mp hfits
    rw [yields_of_step (step_openBracket hdepth), yields_firstItem]
    exact .inr (ih stack [] rest hfits hrest)
  | noMembers h =>
    intro stack rest hfits hrest
    simp only [List.append_assoc, List.cons_append, List.nil_append]
    rw [yields_of_step (step_openBrace (fits_object.mp hfits).1), yields_firstName]
    exact .inl ⟨_, rest, h, rfl, hrest⟩
  | object h ih =>
    intro stack rest hfits hrest
    simp only [List.append_assoc, List.cons_append, List.nil_append]
    obtain ⟨hdepth, hfits⟩ := fits_object.mp hfits
    rw [yields_of_step (step_openBrace hdepth), yields_firstName]
    refine .inr (ih stack [] rest hfits ?_)
    rwa [putAll_nil]
  | element hbefore h hbehind ih =>
    intro stack rest hfits hrest
    simp only [List.append_assoc]
    rw [yields_spaces .value trivial stack hbefore]
    refine ih stack _ hfits ?_
    rwa [yields_spaces (.ended _) trivial stack hbehind]
  | @lastItem tree t h ih =>
    intro stack before rest hfits hrest
    have hclose : State.step limits .start ⟨.array before :: stack, .ended tree.value⟩
        (CodePoint.ofChar ']') = .ok ⟨stack, .ended (.array (tree.value :: before).reverse)⟩ := rfl
    refine ih (.array before :: stack) _ (fits_items.mp hfits).1 ((yields_of_step hclose).mpr ?_)
    rwa [List.reverse_cons]
  | @item tree trees t more h hmore ih ihmore =>
    intro stack before rest hfits hrest
    obtain ⟨hfirst, hfits⟩ := fits_items.mp hfits
    have hcomma : State.step limits .start ⟨.array before :: stack, .ended tree.value⟩
        (CodePoint.ofChar ',') = .ok ⟨.array (tree.value :: before) :: stack, .value⟩ := rfl
    simp only [List.append_assoc, List.cons_append]
    refine ih (.array before :: stack) _ hfirst ((yields_of_step hcomma).mpr ?_)
    refine ihmore stack (tree.value :: before) rest hfits ?_
    rwa [List.reverse_cons, List.append_assoc]
  | @lastMember name tree t u hname h ih =>
    intro stack before rest hfits hrest
    have hclose : State.step limits .start ⟨.object before name :: stack, .ended tree.value⟩
        closeBrace = .ok ⟨stack, .ended (.object (Fields.put before name tree.value))⟩ := rfl
    rw [List.append_assoc, yields_name]
    exact ⟨name, u, _, hname, rfl, ih (.object before name :: stack) _ (fits_members.mp hfits).1
      ((yields_of_step hclose).mpr hrest)⟩
  | @member name tree fields t u more hname h hmore ih ihmore =>
    intro stack before rest hfits hrest
    obtain ⟨hfirst, hfits⟩ := fits_members.mp hfits
    have hcomma : State.step limits .start ⟨.object before name :: stack, .ended tree.value⟩
        (CodePoint.ofChar ',') = .ok ⟨stack, .name (Fields.put before name tree.value)⟩ := rfl
    simp only [List.append_assoc, List.cons_append]
    rw [yields_name]
    exact ⟨name, u, _, hname, rfl, ih (.object before name :: stack) _ hfirst
      ((yields_of_step hcomma).mpr (ihmore stack _ rest hfits hrest))⟩

/-! ## Only spellings are read -/

/-- At its beginning the text has a spelling of a tree, behind which the value
is read. -/
def Takes (limits : Limits) (stack : List Frame) (t : Text) (x : Value) : Prop :=
  ∃ tree w rest, t = w ++ rest ∧ Spells (.value tree) w ∧
    (Phrase.value tree).Fits limits stack.length ∧
    State.Yields limits ⟨stack, .ended tree.value⟩ rest x

/-- Where a value is awaited, the reader takes white space and a spelling of a
tree from the text. -/
def TakesValue (limits : Limits) (t : Text) : Prop :=
  ∀ stack x, State.Yields limits ⟨stack, .value⟩ t x →
    ∃ before rest, t = before ++ rest ∧ Spaces before ∧ Takes limits stack rest x

/-- Where an item is awaited, the reader takes the items up to the bracket. -/
def TakesItems (limits : Limits) (t : Text) : Prop :=
  ∀ stack before x, State.Yields limits ⟨.array before :: stack, .value⟩ t x →
    ∃ trees w rest, t = w ++ CodePoint.ofChar ']' :: rest ∧ Spells (.items trees) w ∧
      (Phrase.items trees).Fits limits (stack.length + 1) ∧
      State.Yields limits ⟨stack, .ended (.array (before.reverse ++ itemValues trees))⟩ rest x

/-- Where a name is awaited, the reader takes the members up to the brace. -/
def TakesMembers (limits : Limits) (t : Text) : Prop :=
  ∀ stack before x, State.Yields limits ⟨stack, .name before⟩ t x →
    ∃ fields w rest, t = w ++ closeBrace :: rest ∧ Spells (.members fields) w ∧
      (Phrase.members fields).Fits limits (stack.length + 1) ∧
      State.Yields limits ⟨stack, .ended (.object (before.putAll (memberValues fields)))⟩ rest x

/-- What the reader takes from a text, wherever it stands. -/
structure TakesSpellings (limits : Limits) (t : Text) : Prop where
  value : TakesValue limits t
  items : TakesItems limits t
  members : TakesMembers limits t

/-! ### One value -/

theorem takes_number {negative : Bool} {sign t : Text} (hsign : Sign negative sign)
    (h : State.Yields limits (inNumber stack (.ofSign negative) .sign) t x)
    (hdigit : negative = false → t.head? ≠ some (CodePoint.ofChar 'I')) :
    Takes limits stack (sign ++ t) x := by
  rcases exists_numeral hsign h with ⟨rest, rfl, hrest⟩ | ⟨n, w, rest, hn, rfl, hdigits, hrest⟩
  · cases hsign with
    | none => exact absurd rfl (hdigit rfl)
    | minus =>
      exact ⟨.word .negativeInfinity, _, rest, rfl, .word _, ⟨Nat.zero_le _, Nat.zero_le _⟩, hrest⟩
  · exact ⟨.number n, sign ++ w, rest, (List.append_assoc ..).symm, .number hn,
      ⟨Nat.zero_le _, hdigits⟩, hrest⟩

theorem takes_string {t : Text}
    (h : State.Yields limits (inString stack .value [] .plain) t x) :
    Takes limits stack (quotationMark :: t) x := by
  obtain ⟨w, u, rest, rfl, hbody, hrest⟩ := endsString h
  exact ⟨.string u, quotationMark :: (w ++ [quotationMark]), rest, by simp, .string (.mk hbody),
    ⟨Nat.zero_le _, Nat.zero_le _⟩, hrest⟩

theorem takes_array {t : Text} (hdepth : stack.length < limits.depth)
    (hitems : TakesItems limits t) (h : State.Yields limits ⟨stack, .firstItem⟩ t x) :
    Takes limits stack (CodePoint.ofChar '[' :: t) x := by
  rcases yields_firstItem.mp h with ⟨s, rest, hs, rfl, hrest⟩ | h
  · exact ⟨.array [], _, rest, by simp, .noItems hs, fits_array.mpr ⟨hdepth, fits_noItems⟩, hrest⟩
  · obtain ⟨trees, w, rest, rfl, hspells, hfits, hrest⟩ := hitems stack [] x h
    exact ⟨.array trees, _, rest, by simp, .array hspells, fits_array.mpr ⟨hdepth, hfits⟩, hrest⟩

theorem takes_object {t : Text} (hdepth : stack.length < limits.depth)
    (hmembers : TakesMembers limits t) (h : State.Yields limits ⟨stack, .firstName⟩ t x) :
    Takes limits stack (openBrace :: t) x := by
  rcases yields_firstName.mp h with ⟨s, rest, hs, rfl, hrest⟩ | h
  · exact ⟨.object [], _, rest, by simp, .noMembers hs, fits_object.mpr ⟨hdepth, fits_noMembers⟩,
      hrest⟩
  · obtain ⟨fields, w, rest, rfl, hspells, hfits, hrest⟩ := hmembers stack [] x h
    rw [putAll_nil] at hrest
    exact ⟨.object fields, _, rest, by simp, .object hspells, fits_object.mpr ⟨hdepth, hfits⟩,
      hrest⟩

theorem takes_word {c : CodePoint} {left t : Text} {v : Value} (hc : literal? c = some (left, v))
    (h : State.Yields limits ⟨stack, .literal .start left v⟩ t x) :
    Takes limits stack (c :: t) x := by
  obtain ⟨w, htext, rfl⟩ := exists_word hc
  obtain ⟨rest, rfl, hrest⟩ := (yields_literal stack (proper_of_literal? hc).1).mp h
  refine ⟨.word w, w.text, rest, ?_, .word w, ⟨Nat.zero_le _, Nat.zero_le _⟩, hrest⟩
  rw [htext]
  rfl

/-! ### Any text -/

theorem takesValue_of_shorter {t : Text}
    (shorter : ∀ t' : Text, t'.length < t.length → TakesSpellings limits t') :
    TakesValue limits t := by
  intro stack x h
  have hend : State.finish limits .start ⟨stack, .value⟩ ≠ .ok x := fun hend => by cases hend
  obtain ⟨before, c, rest, s', hbefore, hc, rfl, hstep, hrest⟩ := exists_step .value trivial hend h
  refine ⟨before, c :: rest, rfl, hbefore, ?_⟩
  have hshorter : TakesSpellings limits rest := by
    refine shorter rest ?_
    simp only [List.length_append, List.length_cons]
    omega
  by_cases hdigit : IsDigit c
  · have hnumber := (yields_congr (step_digit hdigit)).mp ((yields_of_step hstep).mpr hrest)
    have hhead : (c :: rest).head? ≠ some (CodePoint.ofChar 'I') := by
      intro hI
      exact hdigit.ne rfl (Option.some.inj hI)
    exact takes_number .none hnumber fun _ => hhead
  simp only [State.step, hc, Bool.false_eq_true, if_false, startValue,
    digit?_eq_none.mpr hdigit] at hstep
  split_ifs at hstep with hquote hbracket hdeep hbrace hdeep' hminus
  · cases hstep
    exact hquote ▸ takes_string hrest
  · cases hstep
    exact hbracket ▸ takes_array (Nat.not_le.mp hdeep) hshorter.items hrest
  · cases hstep
    exact hbrace ▸ takes_object (Nat.not_le.mp hdeep') hshorter.members hrest
  · cases hstep
    exact hminus ▸ takes_number .minus hrest fun h => by cases h
  · cases hletter : literal? c with
    | none =>
      rw [hletter] at hstep
      cases hstep
    | some p =>
      obtain ⟨left, v⟩ := p
      rw [hletter] at hstep
      cases hstep
      exact takes_word hletter hrest

theorem takesItems_of_shorter {t : Text} (hvalue : TakesValue limits t)
    (shorter : ∀ t' : Text, t'.length < t.length → TakesSpellings limits t') :
    TakesItems limits t := by
  intro stack before x h
  obtain ⟨s, _, rfl, hs, tree, w, rest, rfl, hspells, hfits, hended⟩ :=
    hvalue (.array before :: stack) x h
  obtain ⟨s', rest, hs', ⟨rfl, hnext⟩ | ⟨rfl, hnext⟩⟩ := yields_ended_item hended
  · have hlt : rest.length <
        (s ++ (w ++ (s' ++ CodePoint.ofChar ',' :: rest))).length := by
      simp only [List.length_append, List.length_cons]
      omega
    obtain ⟨trees, more, rest, rfl, hmore, hfits', hrest⟩ :=
      (shorter rest hlt).items stack (tree.value :: before) x hnext
    refine ⟨tree :: trees, _, rest, ?_, .item (.element hs hspells hs') hmore,
      fits_items.mpr ⟨hfits, hfits'⟩, ?_⟩
    · simp
    · simpa [itemValues] using hrest
  · refine ⟨[tree], _, rest, ?_, .lastItem (.element hs hspells hs'),
      fits_items.mpr ⟨hfits, fits_noItems⟩, ?_⟩
    · simp
    · simpa [itemValues] using hnext

theorem takesMembers_of_shorter {t : Text}
    (shorter : ∀ t' : Text, t'.length < t.length → TakesSpellings limits t') :
    TakesMembers limits t := by
  intro stack before x h
  obtain ⟨name, u, t, hname, rfl, hvalue⟩ := yields_name.mp h
  have hlt : ∀ t' : Text, t'.length ≤ t.length → t'.length < (u ++ t).length := by
    intro t' hle
    obtain ⟨_, _, _⟩ := hname
    simp only [List.length_append, List.length_cons]
    omega
  obtain ⟨s, _, rfl, hs, tree, w, rest, rfl, hspells, hfits, hended⟩ :=
    (shorter t (hlt t le_rfl)).value (.object before name :: stack) x hvalue
  obtain ⟨s', rest, hs', ⟨rfl, hnext⟩ | ⟨rfl, hnext⟩⟩ := yields_ended_member hended
  · have hle : rest.length ≤
        (s ++ (w ++ (s' ++ CodePoint.ofChar ',' :: rest))).length := by
      simp only [List.length_append, List.length_cons]
      omega
    obtain ⟨fields, more, rest, rfl, hmore, hfits', hrest⟩ :=
      (shorter rest (hlt rest hle)).members stack _ x hnext
    refine ⟨(name, tree) :: fields, _, rest, ?_, .member hname (.element hs hspells hs') hmore,
      fits_members.mpr ⟨hfits, hfits'⟩, hrest⟩
    simp
  · refine ⟨[(name, tree)], _, rest, ?_, .lastMember hname (.element hs hspells hs'),
      fits_members.mpr ⟨hfits, fits_noMembers⟩, hnext⟩
    simp

/-- What the reader takes is a spelling, from any text. -/
theorem takesSpellings (limits : Limits) (t : Text) : TakesSpellings limits t := by
  -- The induction is on the length of the text. The items begin with a value
  -- in the same text, so the value comes first.
  induction hlength : t.length using Nat.strong_induction_on generalizing t with
  | _ n ih =>
    have shorter : ∀ t' : Text, t'.length < t.length → TakesSpellings limits t' :=
      fun t' hlt => ih t'.length (hlength ▸ hlt) t' rfl
    have hvalue := takesValue_of_shorter shorter
    exact ⟨hvalue, takesItems_of_shorter hvalue shorter, takesMembers_of_shorter shorter⟩

/-! ## Whole texts -/

/-- A value is read from a text exactly if the text denotes it within the
limits. -/
theorem read_eq_ok_iff {t : Text} {v : Value} :
    read limits t = .ok v ↔ DenotesWithin limits t v := by
  rw [read_eq_ok]
  constructor
  · intro h
    obtain ⟨s, _, rfl, hs, tree, w, rest, rfl, hspells, hfits, hended⟩ :=
      (takesSpellings limits t).value [] v h
    obtain ⟨hrest, rfl⟩ := yields_ended_alone.mp hended
    exact ⟨tree, .element hs hspells hrest, hfits.depth, hfits.digits, rfl⟩
  · rintro ⟨tree, hspells, hdepth, hdigits, rfl⟩
    have hfits : (Phrase.value tree).Fits limits 0 := ⟨hdepth, hdigits⟩
    have h := leads_of_spells hspells [] [] hfits (yields_ended_alone.mpr ⟨nofun, rfl⟩)
    rwa [List.append_nil] at h

end Lectern.Json
