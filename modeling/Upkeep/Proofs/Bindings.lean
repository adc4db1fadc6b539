/-
# What a map holds

A map is known by what its names are looked up as: the entries are nothing more, and two maps in
which every name has the same value are the same. So it does not matter in which order a map is
built up, as long as no name comes twice; and if one does, the value that comes last remains.
-/

import Mathlib.Data.List.Basic
import Upkeep.Bindings

namespace Upkeep.Bindings

/-! ## Looking up -/

/-- Where no name comes twice, a name is looked up as what it stands next to. -/
theorem lookup_eq_some_iff_mem {entries : List (String × String)}
    (hdistinct : entries.Pairwise fun a b => a.1 ≠ b.1) {name value : String} :
    entries.lookup name = some value ↔ (name, value) ∈ entries := by
  induction entries with
  | nil => simp
  | cons head rest ih =>
      obtain ⟨first, held⟩ := head
      obtain ⟨hhead, hrest⟩ := List.pairwise_cons.1 hdistinct
      by_cases hname : name = first
      · have hgone : (name, value) ∉ rest := fun hmem => hhead _ hmem hname.symm
        simp [hname, hname ▸ hgone, eq_comm]
      · simp [List.lookup_cons, beq_false_of_ne hname, hname, ih hrest]

theorem distinct (bindings : Bindings) : bindings.entries.Pairwise fun a b => a.1 ≠ b.1 := by
  apply bindings.sorted.imp
  intro a b hlt heq
  exact String.lt_irrefl _ (heq ▸ hlt)

/-- The entries of a map are what its names are looked up as. -/
theorem mem_entries_iff (bindings : Bindings) (name value : String) :
    (name, value) ∈ bindings.entries ↔ bindings.find? name = some value :=
  (lookup_eq_some_iff_mem bindings.distinct).symm

/-- A map has no more to it than what its names are looked up as. -/
theorem eq_of_find? {bindings other : Bindings}
    (hsame : ∀ name, bindings.find? name = other.find? name) : bindings = other := by
  have hnodup : ∀ bindings : Bindings, bindings.entries.Nodup := by
    intro bindings
    apply bindings.distinct.imp
    rintro a b hne rfl
    exact hne rfl
  have hperm : bindings.entries.Perm other.entries := by
    apply (List.perm_ext_iff_of_nodup (hnodup bindings) (hnodup other)).2
    rintro ⟨name, value⟩
    rw [mem_entries_iff, mem_entries_iff, hsame]
  ext1
  apply hperm.eq_of_pairwise _ bindings.sorted other.sorted
  intro a b _ _ hlt hgt
  exact absurd (String.lt_trans hlt hgt) (String.lt_irrefl _)

/-! ## Adding entries -/

/-- What entries add to a map, the last of one name prevailing. -/
theorem find?_foldl_insert (bindings : Bindings) (entries : List (String × String))
    (name : String) :
    (entries.foldl (fun result entry => result.insert entry.1 entry.2) bindings).find? name =
      (entries.reverse.lookup name).or (bindings.find? name) := by
  induction entries generalizing bindings with
  | nil => simp
  | cons head rest ih =>
      obtain ⟨first, held⟩ := head
      rw [List.foldl_cons, ih, find?_insert, List.reverse_cons, List.lookup_append, Option.or_assoc,
        List.lookup_cons]
      by_cases hname : name = first
      · simp [hname]
      · simp [hname, beq_false_of_ne hname]

/-- Of a list of entries, the last of one name decides. -/
theorem find?_ofList (entries : List (String × String)) (name : String) :
    (ofList entries).find? name = entries.reverse.lookup name := by
  rw [ofList, find?_foldl_insert]
  exact Option.or_none

/-- In whatever order the entries of a map are listed, they make this map. -/
theorem ofList_of_perm {bindings : Bindings} {entries : List (String × String)}
    (hperm : entries.Perm bindings.entries) : ofList entries = bindings := by
  have hreverse : entries.reverse.Perm bindings.entries := entries.reverse_perm.trans hperm
  have hdistinct : entries.reverse.Pairwise fun a b => a.1 ≠ b.1 :=
    bindings.distinct.perm hreverse.symm Ne.symm
  apply eq_of_find?
  intro name
  rw [find?_ofList]
  apply Option.ext
  intro value
  rw [lookup_eq_some_iff_mem hdistinct, hreverse.mem_iff, mem_entries_iff]

theorem find?_insertNew (bindings : Bindings) (name value other : String) :
    (bindings.insertNew name value).find? other =
      (bindings.find? other).or (if other = name then some value else none) := by
  unfold insertNew contains
  by_cases hother : other = name
  · subst hother
    cases hfound : bindings.find? other with
    | some found => simp [hfound]
    | none => simp [find?_insert]
  · split <;> simp [find?_insert, hother]

/-- A name that has a value keeps it when entries are added to a map, and any other gets the value
that it has among them. -/
theorem find?_foldl_insertNew (bindings : Bindings) (entries : List (String × String))
    (name : String) :
    (entries.foldl (fun result entry => result.insertNew entry.1 entry.2) bindings).find? name =
      (bindings.find? name).or (entries.lookup name) := by
  induction entries generalizing bindings with
  | nil => simp
  | cons head rest ih =>
      obtain ⟨first, held⟩ := head
      rw [List.foldl_cons, ih, find?_insertNew, Option.or_assoc, List.lookup_cons]
      by_cases hname : name = first
      · simp [hname]
      · simp [hname, beq_false_of_ne hname]

theorem find?_complete (bindings extra : Bindings) (name : String) :
    (bindings.complete extra).find? name = (bindings.find? name).or (extra.find? name) :=
  find?_foldl_insertNew bindings extra.entries name

theorem mem_entries_complete (bindings extra : Bindings) (name value : String) :
    (name, value) ∈ (bindings.complete extra).entries ↔
      (name, value) ∈ bindings.entries ∨
        bindings.find? name = none ∧ (name, value) ∈ extra.entries := by
  simp only [mem_entries_iff, find?_complete, Option.or_eq_some_iff]

end Upkeep.Bindings
