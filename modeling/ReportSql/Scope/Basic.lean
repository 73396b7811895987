/-!
# Tenant scopes

A caller may see the rows of all users or only of those who belong to certain
organisational units. The decision depends on the unit that the caller selected
and on the units that the caller belongs to.

## Main definitions

* `UnitSet` - a set of unit numbers in increasing order
* `Restriction` - the rows that a caller may see
* `Restriction.resolve` - the decision
* `Restriction.fingerprint` - the text of a restriction
-/

namespace ReportSql

/-- A set of unit numbers, in strictly increasing order. -/
structure UnitSet where
  units : List UInt64
  sorted : units.Pairwise (· < ·)

namespace UnitSet

/-- Adds a number to a list in increasing order. -/
def insertSorted (unit : UInt64) : List UInt64 → List UInt64
  | [] => [unit]
  | u :: rest =>
    if unit < u then unit :: u :: rest
    else if unit = u then u :: rest
    else u :: insertSorted unit rest

/-- The list after adding a number holds that number and the old ones. -/
theorem mem_insertSorted {unit u : UInt64} {units : List UInt64} :
    u ∈ insertSorted unit units ↔ u = unit ∨ u ∈ units := by
  induction units with
  | nil => simp [insertSorted]
  | cons first rest ih =>
    simp only [insertSorted]
    split
    · simp
    · split
      next h => simp [h]
      next => simp [ih, or_left_comm]

/-- Adding a number keeps the order. -/
theorem sorted_insertSorted (unit : UInt64) {units : List UInt64}
    (h : units.Pairwise (· < ·)) : (insertSorted unit units).Pairwise (· < ·) := by
  induction units with
  | nil => simp [insertSorted]
  | cons first rest ih =>
    obtain ⟨hfirst, hrest⟩ := List.pairwise_cons.1 h
    simp only [insertSorted]
    split
    case isTrue hlt =>
      refine List.pairwise_cons.2 ⟨fun u hu => ?_, h⟩
      rcases List.mem_cons.1 hu with hu | hu
      · exact hu ▸ hlt
      · exact UInt64.lt_trans hlt (hfirst u hu)
    case isFalse hlt =>
      split
      case isTrue heq => exact h
      case isFalse hne =>
        refine List.pairwise_cons.2 ⟨fun u hu => ?_, ih hrest⟩
        rcases mem_insertSorted.1 hu with hu | hu
        · have hle : first ≤ unit := UInt64.not_lt.1 hlt
          subst hu
          exact UInt64.lt_of_le_of_ne hle fun he => hne he.symm
        · exact hfirst u hu

/-- The set without numbers. -/
def empty : UnitSet := ⟨[], .nil⟩

instance : Inhabited UnitSet := ⟨empty⟩

/-- The set with one more number. -/
def insert (s : UnitSet) (unit : UInt64) : UnitSet :=
  ⟨insertSorted unit s.units, sorted_insertSorted unit s.sorted⟩

/-- The set of the numbers in a list. -/
def ofList (units : List UInt64) : UnitSet :=
  units.foldl insert empty

/-- Whether a number belongs to the set. -/
def contains (s : UnitSet) (unit : UInt64) : Bool :=
  s.units.contains unit

end UnitSet

/-- Who runs a report, and the unit selected for it. -/
structure Caller where
  userId : UInt64
  selectedUnit : Option UInt64
deriving DecidableEq, Repr

/-- What is known of a user: whether all rows may be seen, and the units of the user. -/
structure Access where
  siteWide : Bool
  units : UnitSet

/-- The rows that a caller may see: all of them, or those of users in the given units. -/
inductive Restriction where
  | unrestricted
  | units (units : UnitSet)

namespace Restriction

/-- The decision. Without tenancy everything is visible. A selected unit is visible to members and
to those who see everything; to anyone else it shows nothing. -/
def resolve (caller : Caller) (access : Access) (enabled : Bool) : Restriction :=
  if !enabled then .unrestricted
  else
    match caller.selectedUnit with
    | some unit =>
      if access.siteWide || access.units.contains unit then .units (UnitSet.ofList [unit])
      else .units UnitSet.empty
    | none => if access.siteWide then .unrestricted else .units access.units

/-- The text of a restriction, which stands for the set of visible rows. -/
def fingerprint : Restriction → String
  | unrestricted => "all"
  | units set => "units:" ++ ",".intercalate (set.units.map fun unit => toString unit.toNat)

end Restriction

end ReportSql
