/-
The catalogue of published releases: version texts in the order of the
document, each with its files. A version has one place; what is written for it
later takes the place of what was there.
-/
namespace VersionPick

/-- A file of a release. -/
structure Download where
  url : String
  triplet : Option String
  kind : String
  arch : String
  asc : Option String
  sha256 : Option String
  size : UInt64
  version : String
  os : String
  extension : String
  deriving DecidableEq, Repr

/-- What is published for one version. -/
structure Publication where
  files : List Download
  stable : Bool
  deriving DecidableEq, Repr

namespace Catalogue

/-- Writes a value for a key: in its place if it has one, else at the end. -/
def write (k : String) (v : α) : List (String × α) → List (String × α)
  | [] => [(k, v)]
  | (k', v') :: rest => if k' = k then (k, v) :: rest else (k', v') :: write k v rest

/-- The keys after a write are those before it, with the written key at the
end if it is new. -/
theorem keys_write (k : String) (v : α) :
    ∀ entries : List (String × α), (write k v entries).map (·.1) =
      if k ∈ entries.map (·.1) then entries.map (·.1) else entries.map (·.1) ++ [k]
  | [] => by simp [write]
  | (k', v') :: rest => by
    by_cases h : k' = k
    · simp [write, h]
    · have hk : k ≠ k' := fun e => h e.symm
      simp only [write, h, if_false, List.map_cons, keys_write k v rest, List.mem_cons, hk,
        false_or]
      split <;> simp

theorem nodup_keys_write {k : String} {v : α} {entries : List (String × α)}
    (h : (entries.map (·.1)).Nodup) : ((write k v entries).map (·.1)).Nodup := by
  rw [keys_write]
  split
  · exact h
  · rename_i hk
    rw [List.nodup_append]
    refine ⟨h, by simp, ?_⟩
    intro a ha b hb hab
    simp only [List.mem_singleton] at hb
    exact hk (hb ▸ hab ▸ ha)

end Catalogue

/-- The published releases, each version once. -/
structure Catalogue where
  entries : List (String × Publication)
  nodup_keys : (entries.map (·.1)).Nodup := by simp

namespace Catalogue

def empty : Catalogue where
  entries := []

/-- The catalogue with a publication written for a version. -/
def put (c : Catalogue) (version : String) (p : Publication) : Catalogue where
  entries := write version p c.entries
  nodup_keys := nodup_keys_write c.nodup_keys

def ofList (writes : List (String × Publication)) : Catalogue :=
  writes.foldl (fun c (version, p) => c.put version p) empty

/-- The versions in the order of the document. -/
def versions (c : Catalogue) : List String :=
  c.entries.map (·.1)

end Catalogue

end VersionPick
