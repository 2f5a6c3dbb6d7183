import Mathlib.Data.List.Induction

/-!
# What a store returns

A store has a value at each place. A use of it covers some places and either writes them or returns
what is there. After a history of uses each place has the value of the latest write to it, and a
history is faithful when its reads returned just that.
-/

namespace Storage

variable {Place Value : Type}

/-- A use that took effect. -/
structure Use (Place Value : Type) where
  /-- Whether it writes. -/
  writes : Bool
  /-- What goes through each place that it covers. -/
  cells : Place → Option Value

/-- What is stored after a use. -/
def Use.apply (use : Use Place Value) (contents : Place → Value) : Place → Value := fun place =>
  if use.writes then (use.cells place).getD (contents place) else contents place

/-- What is stored after a history. -/
def replay (contents : Place → Value) (history : List (Use Place Value)) : Place → Value :=
  history.foldl (fun contents use => use.apply contents) contents

/-- The value is that of the latest write to the place, or the first one. -/
def Latest (contents : Place → Value) (history : List (Use Place Value)) (place : Place)
    (value : Value) : Prop :=
  (∃ before use after, history = before ++ use :: after ∧ use.writes = true ∧
    use.cells place = some value ∧ ∀ later ∈ after, later.writes = true → later.cells place = none) ∨
  ((∀ use ∈ history, use.writes = true → use.cells place = none) ∧ value = contents place)

/-- Every read returned the latest write before it. -/
def Faithful (contents : Place → Value) (history : List (Use Place Value)) : Prop :=
  ∀ before use after, history = before ++ use :: after → use.writes = false →
    ∀ place value, use.cells place = some value → Latest contents before place value

variable {contents : Place → Value} {history : List (Use Place Value)} {use : Use Place Value}
  {place : Place}

@[simp] theorem replay_nil : replay contents [] = contents := rfl

/-- One more use. -/
theorem replay_concat : replay contents (history ++ [use]) = use.apply (replay contents history) := by
  rw [replay, List.foldl_append]
  rfl

/-- A place that a use does not write keeps its value. -/
theorem Use.apply_apart (apart : use.writes = true → use.cells place = none) :
    use.apply contents place = contents place := by
  unfold Use.apply
  split
  · rename_i writes
    rw [apart writes]
    rfl
  · rfl

/-- A place that a use writes has its value. -/
theorem Use.apply_written {value : Value} (writes : use.writes = true)
    (covered : use.cells place = some value) : use.apply contents place = value := by
  rw [Use.apply, if_pos writes, covered]
  rfl

/-- **A place holds the latest write to it.** -/
theorem latest_replay : Latest contents history place (replay contents history place) := by
  induction history using List.reverseRecOn with
  | nil => exact .inr ⟨by simp, rfl⟩
  | append_singleton history use ih =>
    rw [replay_concat]
    by_cases apart : use.writes = true → use.cells place = none
    · rw [Use.apply_apart apart]
      rcases ih with ⟨before, latest, after, split, writes, covered, none⟩ | ⟨none, first⟩
      · refine .inl ⟨before, latest, after ++ [use], ?_, writes, covered, ?_⟩
        · rw [split, List.append_assoc, List.cons_append]
        · intro later listed
          rcases List.mem_append.mp listed with earlier | last
          · exact none later earlier
          · rw [List.mem_singleton.mp last]
            exact apart
      · refine .inr ⟨?_, first⟩
        intro other listed
        rcases List.mem_append.mp listed with earlier | last
        · exact none other earlier
        · rw [List.mem_singleton.mp last]
          exact apart
    · obtain ⟨writes, covered⟩ := Classical.not_imp.mp apart
      obtain ⟨value, covered⟩ := Option.ne_none_iff_exists'.mp covered
      rw [Use.apply_written writes covered]
      exact .inl ⟨history, use, [], rfl, writes, covered, by simp⟩

theorem Faithful.nil : Faithful contents [] := by
  intro before use after split
  simp at split

/-- A write, or a read that returned what was stored, keeps a history faithful. -/
theorem Faithful.concat (faithful : Faithful contents history)
    (returned : use.writes = false → ∀ place value, use.cells place = some value →
      value = replay contents history place) : Faithful contents (history ++ [use]) := by
  intro before other after split reads place value covered
  rcases List.eq_nil_or_concat after with rfl | ⟨front, last, rfl⟩
  · obtain ⟨rfl, same⟩ := List.append_inj' split rfl
    obtain rfl := List.singleton_inj.mp same
    rw [returned reads place value covered]
    exact latest_replay
  · rw [List.concat_eq_append, ← List.cons_append, ← List.append_assoc] at split
    obtain ⟨same, -⟩ := List.append_inj' split rfl
    exact faithful before other front same reads place value covered

/-- Reads leave everything as it is. -/
theorem replay_reads (reads : ∀ use ∈ history, use.writes = false) :
    replay contents history = contents := by
  induction history using List.reverseRecOn with
  | nil => rfl
  | append_singleton history use ih =>
    have earlier := ih fun other listed => reads other (List.mem_append_left _ listed)
    have last := reads use (List.mem_append_right _ List.mem_cons_self)
    rw [replay_concat, earlier]
    funext place
    exact Use.apply_apart fun writes => absurd (last.symm.trans writes) Bool.false_ne_true

/-! ## Runs of places -/

variable {Key : Type}

/-- The values stored at successive positions. -/
def take (contents : Key × Nat → Value) (key : Key) (first count : Nat) : List Value :=
  (List.range count).map fun index => contents (key, first + index)

/-- What is taken is what is stored. -/
theorem value_take {contents : Key × Nat → Value} {key : Key} {first count index : Nat} {value : Value}
    (found : (take contents key first count)[index]? = some value) :
    value = contents (key, first + index) := by
  obtain ⟨within, rfl⟩ := List.getElem?_eq_some_iff.mp found
  simp only [take, List.getElem_map, List.getElem_range]

variable [DecidableEq Key]

/-- Values at successive positions under one key. -/
def span (key : Key) (first : Nat) (values : List Value) : Key × Nat → Option Value := fun place =>
  if place.1 = key ∧ first ≤ place.2 then values[place.2 - first]? else none

/-- A span covers positions from the first one on. -/
theorem span_some {key : Key} {first : Nat} {values : List Value} {place : Key × Nat} {value : Value}
    (covered : span key first values place = some value) :
    ∃ index, place = (key, first + index) ∧ values[index]? = some value := by
  unfold span at covered
  split at covered
  · rename_i inside
    refine ⟨place.2 - first, ?_, covered⟩
    rw [Nat.add_sub_cancel' inside.2, ← inside.1]
  · contradiction

end Storage
