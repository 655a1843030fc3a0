import QueryCost.Value.Basic

/-!
# Named values

Arguments, variables and extensions are values by name, in the order in which the names were first put in. What
a name has after a change is said by `get?_insert` and `get?_ofPairs`.
-/
namespace QueryCost

/-- Named values in insertion order. -/
abbrev Entries := List (String × Value)

namespace Entries

def get? (entries : Entries) (key : String) : Option Value :=
  (entries.find? (·.1 == key)).map (·.2)

def contains (entries : Entries) (key : String) : Bool :=
  entries.any (·.1 == key)

/-- Replace the value of a key in place, or append the key. -/
def insert (entries : Entries) (key : String) (value : Value) : Entries :=
  if contains entries key then
    List.map (fun e => if e.1 == key then (key, value) else e) entries
  else List.append entries [(key, value)]

/-- Later entries of a key replace earlier ones. -/
def ofPairs (pairs : List (String × Value)) : Entries :=
  pairs.foldl (fun entries e => insert entries e.1 e.2) []

@[simp] theorem get?_nil (key : String) : get? [] key = none := rfl

theorem get?_cons (e : String × Value) (rest : Entries) (key : String) :
    get? (e :: rest) key = if e.1 = key then some e.2 else get? rest key := by
  by_cases same : e.1 = key
  · simp [get?, same]
  · simp [get?, same]

theorem contains_eq_isSome (entries : Entries) (key : String) :
    contains entries key = (get? entries key).isSome := by
  induction entries with
  | nil => rfl
  | cons e rest ih =>
    unfold contains at ih ⊢
    rw [List.any_cons, ih, get?_cons]
    by_cases same : e.1 = key <;> simp [same]

theorem get?_append (entries more : Entries) (key : String) :
    get? (List.append entries more) key = (get? entries key).or (get? more key) := by
  induction entries with
  | nil => simp
  | cons e rest ih =>
    have step : List.append (e :: rest) more = e :: List.append rest more := rfl
    rw [step, get?_cons, get?_cons, ih]
    split <;> rfl

theorem get?_replaced (entries : Entries) (key : String) (value : Value) (other : String) :
    get? (List.map (fun e => if e.1 == key then (key, value) else e) entries) other =
      if other = key then (get? entries key).map fun _ => value else get? entries other := by
  induction entries with
  | nil => simp
  | cons e rest ih =>
    rw [List.map_cons, get?_cons, ih, get?_cons, get?_cons]
    by_cases mine : e.1 = key
    · by_cases asked : other = key
      · simp [mine, asked]
      · simp [mine, asked, Ne.symm asked]
    · by_cases asked : other = key
      · simp [mine, asked]
      · simp [mine, asked]

/-- A key that is put in has its value, and all other keys keep theirs. -/
theorem get?_insert (entries : Entries) (key : String) (value : Value) (other : String) :
    get? (insert entries key value) other =
      if other = key then some value else get? entries other := by
  unfold insert
  rw [contains_eq_isSome]
  cases present : get? entries key with
  | none =>
    rw [Option.isSome_none, if_neg Bool.false_ne_true, get?_append, get?_cons]
    by_cases asked : other = key
    · simp [asked, present]
    · simp [asked, Ne.symm asked]
  | some old =>
    rw [Option.isSome_some, if_pos rfl, get?_replaced, present]
    rfl

/-- An insertion hides earlier ones at the same key. -/
theorem insert_insert (entries : Entries) (key : String) (v w : Value) :
    insert (insert entries key v) key w = insert entries key w := by
  have there : contains (insert entries key v) key = true := by
    rw [contains_eq_isSome, get?_insert, if_pos rfl]
    rfl
  rw [insert, if_pos there]
  by_cases old : contains entries key = true
  · rw [insert, insert, if_pos old, if_pos old, List.map_map]
    refine List.map_congr_left fun e _ => ?_
    by_cases same : e.1 = key
    · simp [same]
    · simp [same]
  · rw [insert, insert, if_neg old, if_neg old]
    have absent : ∀ e ∈ entries, (e.1 == key) = false := by
      intro e member
      rw [beq_eq_false_iff_ne]
      rintro rfl
      exact old (List.any_eq_true.mpr ⟨e, member, beq_self_eq_true e.1⟩)
    have kept : entries.map (fun e => if e.1 == key then (key, w) else e) = entries := by
      refine (List.map_congr_left fun e member => ?_).trans (List.map_id entries)
      simp [absent e member]
    change List.map _ (entries ++ [(key, v)]) = entries ++ [(key, w)]
    rw [List.map_append, kept]
    simp

/-- Of several entries for a key the last counts. -/
theorem get?_ofPairs (pairs : List (String × Value)) (key : String) :
    get? (ofPairs pairs) key = (pairs.reverse.find? (·.1 == key)).map (·.2) := by
  suffices onto : ∀ entries : Entries,
      get? (pairs.foldl (fun entries e => insert entries e.1 e.2) entries) key =
        ((pairs.reverse.find? (·.1 == key)).map (·.2)).or (get? entries key) by
    simpa [ofPairs] using onto []
  induction pairs with
  | nil => simp
  | cons e rest ih =>
    intro entries
    rw [List.foldl_cons, ih, get?_insert, List.reverse_cons, List.find?_append]
    by_cases same : key = e.1
    · cases rest.reverse.find? (·.1 == key) <;> simp [same]
    · cases rest.reverse.find? (·.1 == key) <;> simp [same, Ne.symm same]

end Entries

end QueryCost
