import ThreeAddress.Code.Basic

/-!
# String constants

The string constants of a program, each under the number of the place that stands for its
address. They are kept in ascending order of their numbers, which is the order in which they
are listed and laid out.
-/

namespace ThreeAddress

/-- String constants in ascending order of their numbers. -/
structure StringPool where
  /-- The constants. -/
  entries : List (Temporary × String)
  /-- Every number is below all later ones. -/
  ascending : entries.Pairwise fun first second => first.1.id < second.1.id

namespace StringPool

/-- No constants. -/
def empty : StringPool := ⟨[], .nil⟩

/-- Entries in ascending order with one more, which replaces an entry of the same number. -/
def place (id : Temporary) (text : String) :
    List (Temporary × String) → List (Temporary × String)
  | [] => [(id, text)]
  | entry :: rest =>
    if id.id < entry.1.id then (id, text) :: entry :: rest
    else if id = entry.1 then (id, text) :: rest
    else entry :: place id text rest

/-- Only the new entry is added. -/
theorem mem_place {id : Temporary} {text : String} {entries : List (Temporary × String)}
    {entry : Temporary × String} (h : entry ∈ place id text entries) :
    entry = (id, text) ∨ entry ∈ entries := by
  induction entries with
  | nil => simpa [place] using h
  | cons head rest ih =>
    unfold place at h
    split at h
    · simpa using h
    · split at h
      · rcases List.mem_cons.mp h with h | h
        · exact .inl h
        · exact .inr (List.mem_cons_of_mem head h)
      · rcases List.mem_cons.mp h with h | h
        · exact .inr (h ▸ List.mem_cons_self)
        · exact (ih h).imp_right (List.mem_cons_of_mem head)

/-- Placing an entry keeps the order. -/
theorem pairwise_place (id : Temporary) (text : String) {entries : List (Temporary × String)}
    (h : entries.Pairwise fun first second => first.1.id < second.1.id) :
    (place id text entries).Pairwise fun first second => first.1.id < second.1.id := by
  induction entries with
  | nil => simp [place]
  | cons head rest ih =>
    obtain ⟨hhead, hrest⟩ := List.pairwise_cons.mp h
    unfold place
    split
    · rename_i hlt
      refine List.pairwise_cons.mpr ⟨fun entry hentry => ?_, h⟩
      rcases List.mem_cons.mp hentry with rfl | hentry
      · exact hlt
      · exact UInt32.lt_trans hlt (hhead entry hentry)
    · rename_i hnot
      split
      · rename_i heq
        subst heq
        exact List.pairwise_cons.mpr ⟨hhead, hrest⟩
      · rename_i hne
        refine List.pairwise_cons.mpr ⟨fun entry hentry => ?_, ih hrest⟩
        rcases mem_place hentry with rfl | hentry
        · have hid : id.id ≠ head.1.id := fun h => hne (Temporary.ext h)
          exact UInt32.lt_of_le_of_ne (UInt32.not_lt.mp hnot) (Ne.symm hid)
        · exact hhead entry hentry

/-- The constants with one more; the latest text of a number counts. -/
def insert (pool : StringPool) (id : Temporary) (text : String) : StringPool :=
  ⟨place id text pool.entries, pairwise_place id text pool.ascending⟩

/-- The constants of a list; of two entries with one number the later counts. -/
def ofList (entries : List (Temporary × String)) : StringPool :=
  entries.foldl (fun pool entry => pool.insert entry.1 entry.2) empty

/-- The text under a number. -/
def find? (pool : StringPool) (id : Temporary) : Option String :=
  (pool.entries.find? fun entry => entry.1 = id).map Prod.snd

end StringPool

end ThreeAddress
