import QueryCost.Proofs.Precedence
import QueryCost.Schema.Classes

/-!
# Snake case and camel case

A name gets its underscores in two steps, and each looks for places that the other may have missed. What
comes of both is simple where it matters: if every capital stands behind a small letter or a digit, there is a
break before each capital and nowhere else (`breakCase_breakWords`). Names in camel case are of this kind unless
a word is a single letter, so their snake case is the name they were made from. For other names of ASCII
characters three things are left: there are no capitals any more, a second turn changes nothing, and
underscores are all that was added.
-/
namespace QueryCost.Text

/-- What holds of the first 128 characters, one by one, holds of every ASCII character. -/
theorem of_ascii {P : Char → Prop} (each : ∀ n < 128, P (Char.ofNat n)) {c : Char}
    (ascii : c.toNat < 128) : P c := by
  have known := each c.toNat ascii
  rwa [Char.ofNat_toNat] at known

/-- A list of ASCII characters. -/
def IsAscii (cs : List Char) : Prop := ∀ c ∈ cs, c.toNat < 128

instance (cs : List Char) : Decidable (IsAscii cs) :=
  List.decidableBAll (fun c : Char => c.toNat < 128) cs

section Lowering

theorem lowerBetween_of_ascii (before after : List Char) {c : Char} (ascii : c.toNat < 128) :
    lowerBetween before c after = [c.toLower] := by
  have sigma : c ≠ 'Σ' := by
    rintro rfl
    exact absurd ascii (by decide)
  have dotted : c ≠ 'İ' := by
    rintro rfl
    exact absurd ascii (by decide)
  simp [lowerBetween, lowerChar, sigma, dotted, ascii]

/-- ASCII characters are lower-cased one by one, whatever stands around them. -/
theorem lower_of_ascii {cs : List Char} (ascii : IsAscii cs) : lower cs = cs.map Char.toLower := by
  have lowered : ∀ before, lowerFrom before cs = cs.map Char.toLower := by
    induction cs with
    | nil => exact fun _ => rfl
    | cons c rest ih =>
      intro before
      have rest_ascii : IsAscii rest := fun d member => ascii d (by simp [member])
      rw [lowerFrom, lowerBetween_of_ascii before rest (ascii c (by simp)), ih rest_ascii]
      rfl
  exact lowered []

theorem toLower_ascii {c : Char} (ascii : c.toNat < 128) : c.toLower.toNat < 128 :=
  of_ascii (P := fun c => c.toLower.toNat < 128) (by decide +kernel) ascii

theorem isUpper_toLower {c : Char} (ascii : c.toNat < 128) : c.toLower.isUpper = false :=
  of_ascii (P := fun c => c.toLower.isUpper = false) (by decide +kernel) ascii

theorem toLower_of_not_isUpper {c : Char} (ascii : c.toNat < 128) (small : c.isUpper = false) :
    c.toLower = c :=
  of_ascii (P := fun c => c.isUpper = false → c.toLower = c) (by decide +kernel) ascii small

theorem map_toLower_eq_self {cs : List Char} (same : ∀ c ∈ cs, c.toLower = c) : cs.map Char.toLower = cs := by
  calc cs.map Char.toLower = cs.map id := List.map_congr_left same
    _ = cs := List.map_id cs

theorem isCapital_eq_isUpper {c : Char} (ascii : c.toNat < 128) : isCapital c = c.isUpper :=
  of_ascii (P := fun c => isCapital c = c.isUpper) (by decide +kernel) ascii

end Lowering

/-- The second text is the first with some underscores put in. -/
inductive Underscored : List Char → List Char → Prop
  | nil : Underscored [] []
  | keep (c : Char) {cs out : List Char} (rest : Underscored cs out) : Underscored (c :: cs) (c :: out)
  | insert {cs out : List Char} (rest : Underscored cs out) : Underscored cs ('_' :: out)

namespace Underscored

theorem refl : ∀ cs, Underscored cs cs
  | [] => .nil
  | c :: cs => .keep c (refl cs)

variable {cs out : List Char}

theorem map (inserted : Underscored cs out) {f : Char → Char} (kept : f '_' = '_') :
    Underscored (cs.map f) (out.map f) := by
  induction inserted with
  | nil => exact .nil
  | keep c _ ih => exact .keep (f c) ih
  | insert _ ih =>
    rw [List.map_cons, kept]
    exact .insert ih

theorem trans {more : List Char} (inserted : Underscored cs out) (again : Underscored out more) :
    Underscored cs more := by
  induction again generalizing cs with
  | nil => exact inserted
  | keep c _ ih =>
    cases inserted with
    | keep _ rest => exact .keep c (ih rest)
    | insert rest => exact .insert (ih rest)
  | insert _ ih => exact .insert (ih inserted)

theorem sublist (inserted : Underscored cs out) : cs.Sublist out := by
  induction inserted with
  | nil => exact .slnil
  | keep c _ ih => exact ih.cons_cons c
  | insert _ ih => exact ih.cons '_'

theorem filter_eq (inserted : Underscored cs out) :
    out.filter (· ≠ '_') = cs.filter (· ≠ '_') := by
  induction inserted with
  | nil => rfl
  | keep c _ ih => simp only [List.filter_cons, ih]
  | insert _ ih => simpa using ih

theorem isAscii (inserted : Underscored cs out) (ascii : IsAscii cs) : IsAscii out := by
  induction inserted with
  | nil => exact ascii
  | keep c _ ih =>
    unfold IsAscii at ascii ⊢
    rw [List.forall_mem_cons] at ascii ⊢
    exact ⟨ascii.1, ih ascii.2⟩
  | insert _ ih => exact List.forall_mem_cons.mpr ⟨by decide, ih ascii⟩

end Underscored

section Breaks

theorem underscored_breakWords (inWord : Bool) (cs : List Char) :
    Underscored cs (breakWords inWord cs) := by
  fun_induction breakWords inWord cs with
  | case1 inWord c u l rest _ ih => exact .keep c ih
  | case2 inWord c u l rest _ _ ih => exact .keep c (.insert (.keep u ih))
  | case3 inWord c u l rest _ _ ih => exact .keep c ih
  | case4 inWord cs => exact .refl cs

theorem underscored_breakCase (cs : List Char) : Underscored cs (breakCase cs) := by
  fun_induction breakCase cs with
  | case1 c u rest _ ih => exact .keep c (.insert (.keep u ih))
  | case2 c u rest _ ih => exact .keep c ih
  | case3 cs => exact .refl cs

theorem underscored_breaks (cs : List Char) : Underscored cs (breakCase (breakWords false cs)) :=
  (underscored_breakWords false cs).trans (underscored_breakCase _)

theorem snakeChars_of_ascii {cs : List Char} (ascii : IsAscii cs) :
    snakeChars cs = (breakCase (breakWords false cs)).map Char.toLower :=
  lower_of_ascii ((underscored_breaks cs).isAscii ascii)

/-- Where there is no capital, no break is made. -/
theorem breakWords_of_no_capital (inWord : Bool) {cs : List Char} (plain : ∀ c ∈ cs, isCapital c = false) :
    breakWords inWord cs = cs := by
  fun_induction breakWords inWord cs with
  | case1 inWord c u l rest _ ih => rw [ih (List.forall_mem_cons.mp plain).2]
  | case2 inWord c u l rest _ broken _ =>
    rw [plain u (by simp)] at broken
    simp at broken
  | case3 inWord c u l rest _ _ ih => rw [ih (List.forall_mem_cons.mp plain).2]
  | case4 inWord cs => rfl

theorem breakCase_of_no_capital {cs : List Char} (plain : ∀ c ∈ cs, isCapital c = false) :
    breakCase cs = cs := by
  fun_induction breakCase cs with
  | case1 c u rest broken _ =>
    rw [plain u (by simp)] at broken
    simp at broken
  | case2 c u rest _ ih => rw [ih (List.forall_mem_cons.mp plain).2]
  | case3 cs => rfl

end Breaks

/-- A break before every capital that is not the first character. -/
def breakCapitals : List Char → List Char
  | c :: u :: rest =>
    if isCapital u then c :: '_' :: breakCapitals (u :: rest) else c :: breakCapitals (u :: rest)
  | cs => cs

/-- A small letter or a digit. -/
def isPlain (c : Char) : Bool := isSmall c || isNumeral c

/-- Every capital that is not the first character stands behind a small letter or a digit. -/
def IsHumped (cs : List Char) : Prop :=
  cs.IsChain fun c u => isCapital u = true → isPlain c = true

section Humps

variable {c u : Char}

theorem ascii_of_isCapital (capital : isCapital c = true) : c.toNat < 128 := by
  have bound : c.toNat ≤ 90 := of_decide_eq_true (Bool.and_elim_right capital)
  omega

theorem ascii_of_isPlain (plain : isPlain c = true) : c.toNat < 128 := by
  rcases Bool.or_eq_true_iff.mp plain with small | numeral
  · have bound : c.toNat ≤ 122 := of_decide_eq_true (Bool.and_elim_right small)
    omega
  · have bound : c.toNat ≤ 57 := of_decide_eq_true (Bool.and_elim_right numeral)
    omega

theorem not_isPlain_of_isCapital (capital : isCapital c = true) : isPlain c = false :=
  of_ascii (P := fun c => isCapital c = true → isPlain c = false) (by decide +kernel)
    (ascii_of_isCapital capital) capital

theorem not_isCapital_of_isPlain (plain : isPlain c = true) : isCapital c = false := by
  cases capital : isCapital c with
  | false => rfl
  | true => rw [not_isPlain_of_isCapital capital] at plain; cases plain

/-- Only what stands before a character decides on a break there, so the characters can be gone through one
by one. -/
theorem breakCase_cons_cons (c u : Char) (rest : List Char) :
    breakCase (c :: u :: rest) =
      if isPlain c && isCapital u then c :: '_' :: breakCase (u :: rest)
      else c :: breakCase (u :: rest) := by
  rw [breakCase]
  change (if (isPlain c && isCapital u) = true then _ else _) = _
  split
  next broken =>
    -- The search goes on behind the capital, but no break would be found right after it.
    have capital := Bool.and_elim_right broken
    cases rest with
    | nil => rfl
    | cons v rest =>
      have unbroken : ¬ ((isSmall u || isNumeral u) && isCapital v) = true := by
        rw [show (isSmall u || isNumeral u) = false from not_isPlain_of_isCapital capital]
        simp
      rw [breakCase, if_neg unbroken]
  next => rfl

theorem breakCase_cons_of_not_isPlain (other : isPlain c = false) (cs : List Char) :
    breakCase (c :: cs) = c :: breakCase cs := by
  cases cs with
  | nil => rfl
  | cons u rest => rw [breakCase_cons_cons, other, Bool.false_and, if_neg Bool.false_ne_true]

theorem breakWords_cons (inWord : Bool) (c : Char) (cs : List Char) :
    ∃ out, breakWords inWord (c :: cs) = c :: out := by
  have first : (breakWords inWord (c :: cs)).head? = some c := by
    have kept : ∀ cs, (breakWords inWord cs).head? = cs.head? := by
      intro cs
      fun_cases breakWords inWord cs <;> rfl
    rw [kept, List.head?_cons]
  exact ⟨_, List.eq_cons_of_mem_head? first⟩

/-- Before a capital that follows a small letter or digit there will be a break. -/
theorem breakCase_cons_breakWords (inWord : Bool) {c u : Char} {rest : List Char}
    (humped : isCapital u = true → isPlain c = true)
    (broken : breakCase (breakWords inWord (u :: rest)) = breakCapitals (u :: rest)) :
    breakCase (c :: breakWords inWord (u :: rest)) = breakCapitals (c :: u :: rest) := by
  obtain ⟨out, spelled⟩ := breakWords_cons inWord u rest
  rw [spelled] at broken ⊢
  rw [breakCase_cons_cons, broken, breakCapitals]
  cases capital : isCapital u with
  | false => simp
  | true => simp [humped capital]

/-- In a name of humps the two steps together make a break before every capital. The first step finds some of
the capitals, and passes over others while it is inside a word; these stand behind a small letter or digit,
so the second step finds them. -/
theorem breakCase_breakWords (inWord : Bool) {cs : List Char} (humped : IsHumped cs) :
    breakCase (breakWords inWord cs) = breakCapitals cs := by
  unfold IsHumped at humped
  fun_induction breakWords inWord cs with
  | case1 inWord c u l rest _ ih =>
    rw [List.isChain_cons_cons] at humped
    exact breakCase_cons_breakWords true humped.1 (ih humped.2)
  | case2 inWord c u l rest _ found ih =>
    obtain ⟨-, capital, small⟩ := found
    have passed : isCapital l = false := not_isCapital_of_isPlain (by simp [isPlain, small])
    rw [List.isChain_cons_cons, List.isChain_cons_cons] at humped
    have kept : isPlain c = true := humped.1 capital
    calc breakCase (c :: '_' :: u :: breakWords true (l :: rest))
      _ = c :: '_' :: breakCase (u :: breakWords true (l :: rest)) := by
        rw [breakCase_cons_cons, breakCase_cons_of_not_isPlain (by decide)]
        simp [show isCapital '_' = false by decide]
      _ = c :: '_' :: u :: breakCapitals (l :: rest) := by
        rw [breakCase_cons_of_not_isPlain (not_isPlain_of_isCapital capital), ih humped.2.2]
      _ = breakCapitals (c :: u :: l :: rest) := by
        simp [breakCapitals, capital, passed]
  | case3 inWord c u l rest _ _ ih =>
    rw [List.isChain_cons_cons] at humped
    exact breakCase_cons_breakWords false humped.1 (ih humped.2)
  | case4 inWord cs short =>
    rcases cs with _ | ⟨c, _ | ⟨u, _ | ⟨l, rest⟩⟩⟩
    · rfl
    · rfl
    · rw [List.isChain_cons_cons] at humped
      exact @breakCase_cons_breakWords inWord c u [] humped.1 rfl
    · exact absurd rfl (short c u l rest)

end Humps

/-- A word of a name in snake case: a small letter, then small letters and digits. -/
structure Word where
  initial : Char
  others : List Char
  initial_small : isSmall initial = true
  others_plain : ∀ c ∈ others, isPlain c = true

namespace Word

def chars (w : Word) : List Char := w.initial :: w.others

/-- The word with its first letter upper-cased. -/
def capitalized (w : Word) : List Char := w.initial.toUpper :: w.others

/-- Words in snake case. -/
def snake (first : Word) (rest : List Word) : List Char :=
  List.intercalate ['_'] ((first :: rest).map chars)

/-- Words in camel case: all but the first are capitalized. -/
def camel (first : Word) (rest : List Word) : List Char :=
  first.chars ++ rest.flatMap capitalized

theorem initial_plain (w : Word) : isPlain w.initial = true := by
  simp [isPlain, w.initial_small]

theorem isCapital_toUpper (w : Word) : isCapital w.initial.toUpper = true :=
  of_ascii (P := fun c => isSmall c = true → isCapital c.toUpper = true) (by decide +kernel)
    (ascii_of_isPlain w.initial_plain) w.initial_small

theorem toLower_toUpper (w : Word) : w.initial.toUpper.toLower = w.initial :=
  of_ascii (P := fun c => isSmall c = true → c.toUpper.toLower = c) (by decide +kernel)
    (ascii_of_isPlain w.initial_plain) w.initial_small

theorem chars_plain (w : Word) : ∀ c ∈ w.chars, isPlain c = true :=
  List.forall_mem_cons.mpr ⟨w.initial_plain, w.others_plain⟩

theorem toLower_of_isPlain {c : Char} (plain : isPlain c = true) : c.toLower = c :=
  of_ascii (P := fun c => isPlain c = true → c.toLower = c) (by decide +kernel)
    (ascii_of_isPlain plain) plain

theorem map_toLower_of_plain {cs : List Char} (plain : ∀ c ∈ cs, isPlain c = true) :
    cs.map Char.toLower = cs :=
  map_toLower_eq_self fun c member => toLower_of_isPlain (plain c member)

theorem map_toLower_capitalized (w : Word) : w.capitalized.map Char.toLower = w.chars := by
  rw [capitalized, List.map_cons, w.toLower_toUpper, map_toLower_of_plain w.others_plain]
  rfl

theorem snake_eq (first : Word) (rest : List Word) :
    snake first rest = first.chars ++ rest.flatMap fun w => '_' :: w.chars := by
  induction rest generalizing first with
  | nil => simp [snake, List.intercalate]
  | cons w rest ih =>
    have joined : snake first (w :: rest) = first.chars ++ '_' :: snake w rest := by
      simp [snake, List.intercalate]
    rw [joined, ih w]
    simp

theorem isHumped_append {c : Char} {cs tail : List Char} (plain : isPlain c = true)
    (more : ∀ d ∈ cs, isPlain d = true)
    (goesOn : ∀ d, isPlain d = true → IsHumped (d :: tail)) : IsHumped (c :: (cs ++ tail)) := by
  induction cs generalizing c with
  | nil => exact goesOn c plain
  | cons d cs ih =>
    rw [List.forall_mem_cons] at more
    exact List.isChain_cons_cons.mpr ⟨fun _ => plain, ih more.1 more.2⟩

/-- The capital of a word stands behind the last character of the word before, which is not the capital of
that word if each word after the first has two characters. -/
theorem isHumped_camel (first : Word) {rest : List Word} (long : ∀ w ∈ rest, 2 ≤ w.chars.length) :
    IsHumped (camel first rest) := by
  suffices humps : ∀ d, isPlain d = true → IsHumped (d :: rest.flatMap capitalized) from
    isHumped_append first.initial_plain first.others_plain humps
  induction rest with
  | nil => exact fun d _ => List.IsChain.singleton d
  | cons w rest ih =>
    intro d plain
    rw [List.forall_mem_cons] at long
    have others_plain := w.others_plain
    cases spelled : w.others with
    | nil => simp [chars, spelled] at long
    | cons e cs =>
      rw [spelled, List.forall_mem_cons] at others_plain
      have inner : IsHumped (e :: (cs ++ rest.flatMap capitalized)) :=
        isHumped_append others_plain.1 others_plain.2 (ih long.2)
      have small : isCapital e = true → isPlain w.initial.toUpper = true := by
        rw [not_isCapital_of_isPlain others_plain.1]
        simp
      rw [List.flatMap_cons, capitalized, spelled]
      exact List.isChain_cons_cons.mpr ⟨fun _ => plain, List.isChain_cons_cons.mpr ⟨small, inner⟩⟩

theorem breakCapitals_append {cs tail out : List Char} (c : Char) (more : ∀ d ∈ cs, isPlain d = true)
    (goesOn : ∀ d, breakCapitals (d :: tail) = d :: out) :
    breakCapitals (c :: (cs ++ tail)) = c :: (cs ++ out) := by
  induction cs generalizing c with
  | nil => exact goesOn c
  | cons d cs ih =>
    rw [List.forall_mem_cons] at more
    rw [List.cons_append, breakCapitals, not_isCapital_of_isPlain more.1, if_neg Bool.false_ne_true,
      ih d more.2]
    rfl

theorem breakCapitals_camel (first : Word) (rest : List Word) :
    breakCapitals (camel first rest) = first.chars ++ rest.flatMap fun w => '_' :: w.capitalized := by
  suffices humps : ∀ d, breakCapitals (d :: rest.flatMap capitalized) =
      d :: rest.flatMap fun w => '_' :: w.capitalized from
    breakCapitals_append first.initial first.others_plain humps
  induction rest with
  | nil => exact fun d => rfl
  | cons w rest ih =>
    intro d
    rw [List.flatMap_cons, capitalized, List.cons_append, breakCapitals, w.isCapital_toUpper, if_pos rfl,
      breakCapitals_append _ w.others_plain ih]
    rfl

theorem isAscii_camel (first : Word) (rest : List Word) : IsAscii (camel first rest) := by
  have initials : ∀ w ∈ rest, IsAscii w.capitalized := fun w _ =>
    List.forall_mem_cons.mpr ⟨ascii_of_isCapital w.isCapital_toUpper,
      fun c member => ascii_of_isPlain (w.others_plain c member)⟩
  refine List.forall_mem_append.mpr ⟨fun c member => ascii_of_isPlain (first.chars_plain c member), ?_⟩
  intro c member
  obtain ⟨w, listed, inside⟩ := List.mem_flatMap.mp member
  exact initials w listed c inside

/-- Snake case leads back from camel case. -/
theorem snakeChars_camel (first : Word) {rest : List Word}
    (long : ∀ w ∈ rest, 2 ≤ w.chars.length) : snakeChars (camel first rest) = snake first rest := by
  rw [snakeChars_of_ascii (isAscii_camel first rest), breakCase_breakWords false (isHumped_camel first long),
    breakCapitals_camel, snake_eq, List.map_append, map_toLower_of_plain first.chars_plain,
    List.map_flatMap]
  congr 1
  refine List.flatMap_congr fun w _ => ?_
  rw [List.map_cons, w.map_toLower_capitalized]
  rfl

theorem splitWords_append {cs tail word : List Char} {more : List (List Char)}
    (plain : ∀ c ∈ cs, isPlain c = true) (split : splitWords tail = word :: more) :
    splitWords (cs ++ tail) = (cs ++ word) :: more := by
  induction cs with
  | nil => exact split
  | cons c cs ih =>
    rw [List.forall_mem_cons] at plain
    have other : c ≠ '_' := by
      rintro rfl
      cases plain.1
    rw [List.cons_append, splitWords, if_neg other, ih plain.2]
    rfl

theorem splitWords_snake (first : Word) (rest : List Word) :
    splitWords (snake first rest) = first.chars :: rest.map chars := by
  rw [snake_eq]
  induction rest generalizing first with
  | nil => simpa using splitWords_append first.chars_plain (show splitWords [] = [] :: [] from rfl)
  | cons w rest ih =>
    have behind : splitWords ('_' :: (w.chars ++ rest.flatMap fun w => '_' :: w.chars)) =
        [] :: w.chars :: rest.map chars := by
      rw [splitWords, if_pos rfl, ih w]
    simpa using splitWords_append first.chars_plain behind

theorem capitalize_chars (w : Word) : capitalize w.chars = w.capitalized := by
  have ascii : IsAscii w.others := fun c member => ascii_of_isPlain (w.others_plain c member)
  rw [chars, capitalize, lower_of_ascii ascii, map_toLower_of_plain w.others_plain]
  rfl

/-- Words get the camel case of the naming rule. -/
theorem camelChars_snake (first : Word) (rest : List Word) :
    camelChars (snake first rest) = camel first rest := by
  rw [camelChars, splitWords_snake]
  dsimp only
  rw [List.flatMap_map]
  simp only [capitalize_chars]
  rfl

end Word

section Names

variable {cs : List Char}

theorem snakeChars_underscored (ascii : IsAscii cs) :
    Underscored (cs.map Char.toLower) (snakeChars cs) := by
  rw [snakeChars_of_ascii ascii]
  exact (underscored_breaks cs).map (by decide)

theorem isAscii_snakeChars (ascii : IsAscii cs) : IsAscii (snakeChars cs) := by
  refine (snakeChars_underscored ascii).isAscii ?_
  simpa [IsAscii] using fun c member => toLower_ascii (ascii c member)

theorem snakeChars_isUpper (ascii : IsAscii cs) : ∀ c ∈ snakeChars cs, c.isUpper = false := by
  rw [snakeChars_of_ascii ascii, List.forall_mem_map]
  exact fun c member => isUpper_toLower ((underscored_breaks cs).isAscii ascii c member)

/-- Small letters stay as they are. -/
theorem snakeChars_of_not_isUpper (ascii : IsAscii cs) (small : ∀ c ∈ cs, c.isUpper = false) :
    snakeChars cs = cs := by
  have plain : ∀ c ∈ cs, isCapital c = false := fun c member =>
    (isCapital_eq_isUpper (ascii c member)).trans (small c member)
  rw [snakeChars_of_ascii ascii, breakWords_of_no_capital false plain, breakCase_of_no_capital plain]
  exact map_toLower_eq_self fun c member => toLower_of_not_isUpper (ascii c member) (small c member)

end Names

/-- Snake case of ASCII names has no capitals and is its own snake case; without underscores it is the
lower-cased name without underscores, of which no character is lost. It leads back from camel case: a name made
of words, all but the first capitalized, becomes the words joined by underscores, if each word after the first
has at least two characters. Such a name is what the naming rule makes of the joined words, and so the cost
of a field that a class shows under it is looked for at the attribute with the class's own name for it. -/
theorem snakeCase_undoes_camelCase :
    (∀ s : String, IsAscii s.toList →
      (∀ c ∈ (snakeCase s).toList, c.isUpper = false) ∧
      snakeCase (snakeCase s) = snakeCase s ∧
      (snakeCase s).toList.filter (· ≠ '_') = (s.toList.map Char.toLower).filter (· ≠ '_') ∧
      (s.toList.map Char.toLower).Sublist (snakeCase s).toList) ∧
    ∀ (first : Word) (rest : List Word), (∀ w ∈ rest, 2 ≤ w.chars.length) →
      snakeCase (.ofList (Word.camel first rest)) = .ofList (Word.snake first rest) ∧
      camelCase (.ofList (Word.snake first rest)) = .ofList (Word.camel first rest) ∧
      ∀ (field : FieldDef) (t : TypeDef) (owner : Owner) (d : Declaration),
        Declaration.inExtensions? field = .ok none → Declaration.inResolver? field = none →
        t.owner = some owner →
        Declaration.inOwner? owner (.ofList (Word.snake first rest)) = some d →
        Declaration.find? field (some t) (some (.ofList (Word.camel first rest))) = .ok (some d) := by
  constructor
  · intro s ascii
    have inserted := snakeChars_underscored ascii
    have settled := snakeChars_of_not_isUpper (isAscii_snakeChars ascii) (snakeChars_isUpper ascii)
    simp only [snakeCase, String.toList_ofList]
    exact ⟨snakeChars_isUpper ascii, congrArg String.ofList settled, inserted.filter_eq, inserted.sublist⟩
  · intro first rest long
    have restored : snakeCase (.ofList (Word.camel first rest)) = .ofList (Word.snake first rest) := by
      rw [snakeCase, String.toList_ofList, Word.snakeChars_camel first long]
    refine ⟨restored, ?_, ?_⟩
    · rw [camelCase, String.toList_ofList, Word.camelChars_snake]
    · intro field t owner d unextended unresolved owned found
      have named : String.ofList (Word.camel first rest) ≠ "" := by simp [Word.camel, Word.chars]
      have attributed : Declaration.inParent? (some t) (some (.ofList (Word.camel first rest))) = some d := by
        simp [Declaration.inParent?, owned, named, restored, found]
      rw [Declaration.find?, unextended, unresolved, attributed]
      rfl

/-- A class with an attribute of three words, which declares a cost. -/
def pagedClass : ClassType :=
  ⟨"Query", [⟨"page_size_v2", none, .named "Int", [], some ⟨.num (.int 3), [.str "first"]⟩⟩]⟩

theorem snakeCase_undoes_camelCase_paged :
    IsAscii "getHTTPResponse2Code_".toList ∧
    snakeCase "getHTTPResponse2Code_" = "get_http_response2_code_" ∧
    snakeCase "get_http_response2_code_" = "get_http_response2_code_" ∧
    snakeCase "pageSizeV2" = "page_size_v2" ∧ camelCase "page_size_v2" = "pageSizeV2" ∧
    ∀ field ∈ pagedClass.fields.map (·.fieldDef true),
      field.name = "pageSizeV2" ∧
      Declaration.find? field (some (pagedClass.typeDef true)) (some field.name) =
        .ok (some ⟨.num (.int 3), [.str "first"]⟩) := by
  let page : Word := ⟨'p', ['a', 'g', 'e'], rfl, List.all_eq_true.mp rfl⟩
  let rest : List Word :=
    [⟨'s', ['i', 'z', 'e'], rfl, List.all_eq_true.mp rfl⟩, ⟨'v', ['2'], rfl, List.all_eq_true.mp rfl⟩]
  have ascii : IsAscii "getHTTPResponse2Code_".toList := by decide +kernel
  have spelled : snakeCase "getHTTPResponse2Code_" = "get_http_response2_code_" := by decide +kernel
  obtain ⟨-, settled, -⟩ := snakeCase_undoes_camelCase.1 _ ascii
  obtain ⟨restored, shown, found⟩ := snakeCase_undoes_camelCase.2 page rest (by decide)
  rw [spelled] at settled
  refine ⟨ascii, spelled, settled, restored, shown, ?_⟩
  intro field member
  obtain rfl := List.mem_singleton.mp member
  have named : ((ClassField.fieldDef true) ⟨"page_size_v2", none, .named "Int", [],
      some ⟨.num (.int 3), [.str "first"]⟩⟩).name = "pageSizeV2" := shown
  rw [named]
  exact ⟨rfl, found _ _ _ _ rfl rfl rfl rfl⟩

end QueryCost.Text
