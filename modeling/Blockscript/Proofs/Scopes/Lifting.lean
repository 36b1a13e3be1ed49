import Blockscript.Proofs.Scopes.Operations

/-!
# Scopes put in between

The open scopes form a stack, but names are looked up along the parents. So scopes that
are put in above a floor do not show to those that stand higher up and continue below the
floor: names mean what they meant, in scopes that are only counted differently. Here this
is said of every operation on an environment, for any scopes put in.
-/

namespace Blockscript

/-- The place of a scope, when so many scopes are put in at a floor. -/
def lifted (floor count place : Nat) : Nat :=
  if place < floor then place else place + count

/-- A place below the floor stays where it is. -/
theorem lifted_of_lt {floor count place : Nat} (below : place < floor) :
    lifted floor count place = place := by
  rw [lifted, if_pos below]

/-- A place above the floor is moved up. -/
theorem lifted_of_le {floor count place : Nat} (above : floor ≤ place) :
    lifted floor count place = place + count := by
  rw [lifted, if_neg (by omega)]

/-- Scopes keep their order. -/
theorem lifted_lt {floor count first second : Nat} :
    lifted floor count first < lifted floor count second ↔ first < second := by
  unfold lifted
  split
  · split
    · rfl
    · omega
  · split
    · omega
    · omega

/-- A scope that continues where it did, when so many scopes are put in at a floor. -/
def Scope.lifted {ν ι : Type} (floor count : Nat) (scope : Scope ν ι) : Scope ν ι :=
  { scope with parent := scope.parent.map (Blockscript.lifted floor count) }

namespace Environment

variable {ν ι β : Type} {floor : Nat} {between : List (Scope ν ι)}
  {environment after : Environment ν ι}

/-- Every scope continues in one that stands below it. -/
def Ordered (environment : Environment ν ι) : Prop :=
  ∀ (place : Nat) (scope : Scope ν ι) (parent : Nat),
    environment.scopes[place]? = some scope → scope.parent = some parent → parent < place

/-- The scopes with others put in at a floor. -/
def putIn (floor : Nat) (between : List (Scope ν ι)) (environment : Environment ν ι) :
    Environment ν ι :=
  ⟨(environment.scopes.toList.take floor ++ between ++
    (environment.scopes.toList.drop floor).map (Scope.lifted floor between.length)).toArray⟩

/-- What stands at a place, with scopes put in. -/
theorem getElem?_putIn (occupied : floor ≤ environment.scopes.size) (place : Nat) :
    (environment.putIn floor between).scopes[place]? =
      if place < floor then environment.scopes[place]?
      else if place < floor + between.length then between[place - floor]?
      else (environment.scopes[place - between.length]?).map
        (Scope.lifted floor between.length) := by
  have length : (environment.scopes.toList.take floor).length = floor := by
    rw [List.length_take, Array.length_toList, Nat.min_eq_left occupied]
  simp only [putIn, List.getElem?_toArray, List.append_assoc, List.getElem?_append, length]
  split
  · next below => simp [below]
  · next above =>
    simp only [List.getElem?_map, List.getElem?_drop, Array.getElem?_toList]
    by_cases inside : place < floor + between.length
    · rw [if_pos (by omega), if_pos inside]
    · rw [if_neg (by omega), if_neg inside]
      congr 2
      omega

/-- Scopes that are put in are open in addition. -/
theorem size_putIn (occupied : floor ≤ environment.scopes.size) :
    (environment.putIn floor between).scopes.size = environment.scopes.size + between.length := by
  simp only [putIn, List.size_toArray, List.length_append, List.length_take, List.length_map,
    List.length_drop, Array.length_toList]
  omega

/-- Two environments are the same when the same scope stands at each place. -/
theorem ext_place {first second : Environment ν ι}
    (same : ∀ place : Nat, first.scopes[place]? = second.scopes[place]?) : first = second := by
  obtain ⟨scopes⟩ := first
  obtain ⟨others⟩ := second
  exact congrArg Environment.mk (Array.ext_getElem? same)

/-- A scope is found at its lifted place, and continues where it did. -/
theorem getElem?_lifted (ordered : environment.Ordered) (occupied : floor ≤ environment.scopes.size)
    (place : Nat) :
    (environment.putIn floor between).scopes[lifted floor between.length place]? =
      (environment.scopes[place]?).map (Scope.lifted floor between.length) := by
  rw [getElem?_putIn occupied]
  by_cases below : place < floor
  · rw [lifted_of_lt below, if_pos below]
    cases there : environment.scopes[place]? with
    | none => rfl
    | some scope =>
      rw [Option.map_some, Scope.lifted]
      cases continued : scope.parent with
      | none => rw [Option.map_none, ← continued]
      | some parent =>
        have lower : parent < place := ordered place scope parent there continued
        rw [Option.map_some, lifted_of_lt (by omega), ← continued]
  · rw [lifted_of_le (by omega), if_neg (by omega), if_neg (by omega), Nat.add_sub_cancel]

/-- Looking something up finds the same in the same scope, which is only counted
differently. -/
theorem search_putIn (ordered : environment.Ordered) (occupied : floor ≤ environment.scopes.size)
    (found : Scope ν ι → Option β)
    (blind : ∀ scope, found (Scope.lifted floor between.length scope) = found scope)
    (place : Nat) :
    (environment.putIn floor between).search found (lifted floor between.length place) =
      (environment.search found place).map
        fun result => (lifted floor between.length result.1, result.2) := by
  induction place using Nat.strongRecOn with
  | ind place inductionHypothesis =>
    rw [search, search, getElem?_lifted ordered occupied]
    cases there : environment.scopes[place]? with
    | none => rfl
    | some scope =>
      simp only [Option.map_some, blind]
      cases found scope with
      | some result => rfl
      | none =>
        simp only [Scope.lifted]
        cases scope.parent with
        | none => rfl
        | some parent =>
          simp only [Option.map_some, lifted_lt]
          split
          · next lower => exact inductionHypothesis parent lower
          · rfl

/-- The innermost scope stays the innermost one if it stands above the floor. -/
theorem current_putIn (above : floor < environment.scopes.size) :
    (environment.putIn floor between).current =
      lifted floor between.length environment.current := by
  rw [current, size_putIn (by omega), current, lifted_of_le (by omega)]
  omega

/-- Scopes are put in before or after a change that does not look at parents alike. -/
theorem modify_putIn (occupied : floor ≤ environment.scopes.size)
    (change : Scope ν ι → Scope ν ι)
    (blind : ∀ scope, change (Scope.lifted floor between.length scope) =
      Scope.lifted floor between.length (change scope)) (place : Nat) :
    (⟨(environment.putIn floor between).scopes.modify (lifted floor between.length place)
        change⟩ : Environment ν ι) =
      (⟨environment.scopes.modify place change⟩ : Environment ν ι).putIn floor between := by
  refine ext_place fun other => ?_
  have modified : floor ≤ (⟨environment.scopes.modify place change⟩ :
      Environment ν ι).scopes.size := by
    simpa using occupied
  rw [getElem?_putIn modified, Array.getElem?_modify, getElem?_putIn occupied]
  simp only [Array.getElem?_modify]
  by_cases below : other < floor
  · have same : lifted floor between.length place = other ↔ place = other := by
      unfold lifted
      split
      · rfl
      · omega
    simp only [if_pos below, same]
  · by_cases inside : other < floor + between.length
    · have apart : lifted floor between.length place ≠ other := by
        unfold lifted
        split
        · omega
        · omega
      simp only [if_neg below, if_pos inside, if_neg apart]
    · have same : lifted floor between.length place = other ↔
          place = other - between.length := by
        unfold lifted
        split
        · omega
        · omega
      simp only [if_neg below, if_neg inside, same]
      split
      · simp only [Option.map_map, Function.comp_def, blind]
      · rfl

/-- Scopes are put in before or after a further one is opened alike. -/
theorem push_putIn (occupied : floor ≤ environment.scopes.size) (scope : Scope ν ι) :
    (⟨(environment.putIn floor between).scopes.push
        (Scope.lifted floor between.length scope)⟩ : Environment ν ι) =
      (⟨environment.scopes.push scope⟩ : Environment ν ι).putIn floor between := by
  simp only [putIn, Array.toList_push, List.push_toArray, List.append_assoc,
    Environment.mk.injEq]
  rw [List.take_append_of_le_length (by simpa using occupied),
    List.drop_append_of_le_length (by simpa using occupied)]
  simp

/-- Scopes are put in before or after one above them is closed alike. -/
theorem pop_putIn (above : floor < environment.scopes.size) :
    (⟨(environment.putIn floor between).scopes.pop⟩ : Environment ν ι) =
      (⟨environment.scopes.pop⟩ : Environment ν ι).putIn floor between := by
  refine ext_place fun other => ?_
  have popped : floor ≤ (⟨environment.scopes.pop⟩ : Environment ν ι).scopes.size := by
    simp
    omega
  have occupied : floor ≤ environment.scopes.size := by
    omega
  rw [getElem?_putIn popped, Array.getElem?_pop, size_putIn occupied, getElem?_putIn occupied]
  simp only [Array.getElem?_pop]
  by_cases below : other < floor
  · rw [if_pos (by omega), if_pos below, if_pos below, if_pos (by omega)]
  · by_cases inside : other < floor + between.length
    · rw [if_pos (by omega), if_neg below, if_pos inside, if_neg below, if_pos inside]
    · simp only [if_neg below, if_neg inside]
      by_cases kept : other - between.length < environment.scopes.size - 1
      · rw [if_pos (by omega), if_pos kept]
      · rw [if_neg (by omega), if_neg kept, Option.map_none]

end Environment

end Blockscript
