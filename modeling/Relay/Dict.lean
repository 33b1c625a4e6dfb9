/-!
Dictionaries from strings to strings: the metadata of a message and the baggage of a context. A
dictionary lists its entries by ascending key, one per key, so two dictionaries with the same
look-ups are equal.
-/

namespace Relay

namespace Entries

/-- The entries with `key` bound to `value`, every other binding unchanged. -/
def put (key value : String) : List (String × String) → List (String × String)
  | [] => [(key, value)]
  | (k, v) :: rest =>
    if key < k then (key, value) :: (k, v) :: rest
    else if key = k then (key, value) :: rest
    else (k, v) :: put key value rest

/-- Entries in strictly ascending order of key. -/
abbrev Sorted (l : List (String × String)) : Prop := l.Pairwise fun a b => a.1 < b.1

theorem key_of_mem_put {key value : String} {e : String × String} :
    ∀ {l : List (String × String)}, e ∈ put key value l → e = (key, value) ∨ e ∈ l
  | [], h => by simpa [put] using h
  | (k, v) :: rest, h => by
    unfold put at h
    split at h
    · simpa using h
    · split at h
      · rcases List.mem_cons.1 h with h | h
        · exact Or.inl h
        · exact Or.inr (List.mem_cons_of_mem _ h)
      · rcases List.mem_cons.1 h with h | h
        · exact Or.inr (h ▸ List.mem_cons_self)
        · exact (key_of_mem_put h).imp id (List.mem_cons_of_mem _)

theorem sorted_put {key value : String} :
    ∀ {l : List (String × String)}, Sorted l → Sorted (put key value l)
  | [], _ => by simp [put]
  | (k, v) :: rest, h => by
    have ⟨hk, hrest⟩ := List.pairwise_cons.1 h
    unfold put
    split
    · rename_i hlt
      refine List.pairwise_cons.2 ⟨fun e he => ?_, h⟩
      rcases List.mem_cons.1 he with rfl | he
      · exact hlt
      · exact String.lt_trans hlt (hk e he)
    · split
      · rename_i heq
        exact List.pairwise_cons.2 ⟨fun e he => heq ▸ hk e he, hrest⟩
      · rename_i hnlt hne
        refine List.pairwise_cons.2 ⟨fun e he => ?_, sorted_put hrest⟩
        rcases key_of_mem_put he with rfl | he
        · exact Std.lt_of_le_of_ne (String.not_lt.1 hnlt) (Ne.symm hne)
        · exact hk e he

end Entries

/-- A dictionary from strings to strings. -/
structure Dict where
  /-- The bindings, by ascending key. -/
  entries : List (String × String) := []
  /-- No key occurs twice, and the order is that of the keys. -/
  sorted : Entries.Sorted entries := by simp
deriving DecidableEq

namespace Dict

instance : EmptyCollection Dict := ⟨⟨[], .nil⟩⟩
instance : Inhabited Dict := ⟨∅⟩

/-- The value bound to `key`. -/
def get? (d : Dict) (key : String) : Option String := d.entries.lookup key

/-- Binds `key` to `value`, replacing an earlier value. -/
def insert (d : Dict) (key value : String) : Dict :=
  ⟨Entries.put key value d.entries, Entries.sorted_put d.sorted⟩

/-- Removes the binding of `key`, if there is one. -/
def erase (d : Dict) (key : String) : Dict :=
  ⟨d.entries.filter (·.1 != key), d.sorted.filter _⟩

/-- Whether `key` is bound. -/
def contains (d : Dict) (key : String) : Bool := (d.get? key).isSome

def size (d : Dict) : Nat := d.entries.length

/-- The bindings, by ascending key. -/
def toList (d : Dict) : List (String × String) := d.entries

/-- Binds every pair in turn, so that a later pair wins over an earlier one. -/
def insertMany (d : Dict) (pairs : List (String × String)) : Dict :=
  pairs.foldl (fun d e => d.insert e.1 e.2) d

/-- The dictionary of a list of pairs, where a later pair wins. -/
def ofList (pairs : List (String × String)) : Dict := insertMany ∅ pairs

end Dict

end Relay
