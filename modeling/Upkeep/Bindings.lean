/-
# Named values

A finite map from names to texts, as settings, environments and configuration entries are. The
entries are kept in the order of their names, each name once, so that two maps with the same
entries are the same map and listing them needs no further sorting.
-/

namespace Upkeep

/-- A map from names to texts, listed in the order of the names. -/
structure Bindings where
  entries : List (String × String)
  sorted : entries.Pairwise fun a b => a.1 < b.1

namespace Bindings

/-- Maps with equal listings are equal. -/
@[ext] theorem ext {a b : Bindings} (h : a.entries = b.entries) : a = b := by
  cases a; cases b; simp_all

instance : DecidableEq Bindings := fun a b =>
  if h : a.entries = b.entries then isTrue (ext h)
  else isFalse fun hab => h (hab ▸ rfl)

/-- The map without entries. -/
def empty : Bindings := ⟨[], .nil⟩

instance : EmptyCollection Bindings := ⟨empty⟩

instance : Inhabited Bindings := ⟨empty⟩

/-- Puts an entry in its place in a listing; an entry of the same name gives way. -/
def place (name value : String) : List (String × String) → List (String × String)
  | [] => [(name, value)]
  | (n, v) :: rest =>
    if name < n then (name, value) :: (n, v) :: rest
    else if n < name then (n, v) :: place name value rest
    else (name, value) :: rest

/-- The names of a listing after one was placed in it. -/
theorem mem_place {name value : String} {listing : List (String × String)}
    {entry : String × String} (h : entry ∈ place name value listing) :
    entry = (name, value) ∨ entry ∈ listing := by
  induction listing with
  | nil => simpa [place] using h
  | cons head rest ih =>
    obtain ⟨n, v⟩ := head
    simp only [place] at h
    split at h
    · simpa using h
    · split at h
      · rcases List.mem_cons.1 h with h | h
        · simp [h]
        · rcases ih h with h | h <;> simp [h]
      · rcases List.mem_cons.1 h with h | h <;> simp [h]

/-- Placing an entry keeps a listing in order. -/
theorem sorted_place {name value : String} {listing : List (String × String)}
    (h : listing.Pairwise fun a b => a.1 < b.1) :
    (place name value listing).Pairwise fun a b => a.1 < b.1 := by
  induction listing with
  | nil => simp [place]
  | cons head rest ih =>
    obtain ⟨n, v⟩ := head
    obtain ⟨hhead, hrest⟩ := List.pairwise_cons.1 h
    simp only [place]
    split
    next hlt =>
      refine List.pairwise_cons.2 ⟨fun entry hentry => ?_, h⟩
      rcases List.mem_cons.1 hentry with rfl | hentry
      · exact hlt
      · exact String.lt_trans hlt (hhead entry hentry)
    next hnlt =>
      split
      next hgt =>
        refine List.pairwise_cons.2 ⟨fun entry hentry => ?_, ih hrest⟩
        rcases mem_place hentry with rfl | hentry
        · exact hgt
        · exact hhead entry hentry
      next hngt =>
        have hname : name = n := by
          rcases String.le_total n name with hle | hle
          · exact String.le_antisymm (String.not_lt.1 hngt) hle
          · exact String.le_antisymm hle (String.not_lt.1 hnlt)
        subst hname
        exact List.pairwise_cons.2 ⟨hhead, hrest⟩

/-- The map with one more entry; an entry of the same name is replaced. -/
def insert (bindings : Bindings) (name value : String) : Bindings :=
  ⟨place name value bindings.entries, sorted_place bindings.sorted⟩

/-- The value of a name. -/
def find? (bindings : Bindings) (name : String) : Option String :=
  bindings.entries.lookup name

/-- Whether a name has a value. -/
def contains (bindings : Bindings) (name : String) : Bool :=
  (bindings.find? name).isSome

/-- The map with one more entry, unless the name has a value already. -/
def insertNew (bindings : Bindings) (name value : String) : Bindings :=
  if bindings.contains name then bindings else bindings.insert name value

/-- The map of a list of entries, the last of one name prevailing. -/
def ofList (entries : List (String × String)) : Bindings :=
  entries.foldl (fun bindings entry => bindings.insert entry.1 entry.2) empty

/-- All entries of `extra` whose names have no value yet, on top of `bindings`. -/
def complete (bindings extra : Bindings) : Bindings :=
  extra.entries.foldl (fun result entry => result.insertNew entry.1 entry.2) bindings

/-- The names in order. -/
def names (bindings : Bindings) : List String :=
  bindings.entries.map Prod.fst

/-- What a name is looked up as after an entry was placed in a listing. -/
theorem lookup_place (name value other : String) (listing : List (String × String))
    (h : listing.Pairwise fun a b => a.1 < b.1) :
    (place name value listing).lookup other =
      if other = name then some value else listing.lookup other := by
  induction listing with
  | nil =>
    by_cases hother : other = name
    · simp [place, hother]
    · simp [place, hother, List.lookup_cons, beq_false_of_ne hother]
  | cons head rest ih =>
    obtain ⟨n, v⟩ := head
    obtain ⟨hhead, hrest⟩ := List.pairwise_cons.1 h
    simp only [place]
    split
    next hlt =>
      by_cases hother : other = name
      · simp [hother]
      · simp [List.lookup_cons, hother, beq_false_of_ne hother]
    next hnlt =>
      split
      next hgt =>
        by_cases hn : other = n
        · subst hn
          have hne : other ≠ name := fun heq => String.lt_irrefl _ (heq ▸ hgt)
          simp [hne]
        · simp [List.lookup_cons, beq_false_of_ne hn, ih hrest]
      next hngt =>
        have hname : name = n := by
          rcases String.le_total n name with hle | hle
          · exact String.le_antisymm (String.not_lt.1 hngt) hle
          · exact String.le_antisymm hle (String.not_lt.1 hnlt)
        subst hname
        by_cases hother : other = name
        · simp [hother]
        · simp [List.lookup_cons, hother, beq_false_of_ne hother]

/-- An inserted name has the new value and every other name keeps its own. -/
theorem find?_insert (bindings : Bindings) (name value other : String) :
    (bindings.insert name value).find? other =
      if other = name then some value else bindings.find? other :=
  lookup_place name value other bindings.entries bindings.sorted

end Bindings

end Upkeep
