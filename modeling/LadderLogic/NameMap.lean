/-! Maps from names, in the order of their code points. -/
namespace LadderLogic

/-- The entries stand in strictly ascending order of their names, so equal maps have equal entries. -/
structure NameMap (α : Type) where
  entries : List (String × α)
  ascending : entries.Pairwise fun a b => a.1 < b.1
deriving DecidableEq

namespace NameMap

/-- Puts an entry in its place; an entry of the same name is replaced. -/
def insertEntry (name : String) (a : α) : List (String × α) → List (String × α)
  | [] => [(name, a)]
  | e :: rest =>
    if name < e.1 then (name, a) :: e :: rest
    else if name = e.1 then (name, a) :: rest
    else e :: insertEntry name a rest

theorem lt_of_not_lt_of_ne {a b : String} (h : ¬a < b) (hne : a ≠ b) : b < a :=
  Decidable.byContradiction fun h' => hne (String.le_antisymm (String.not_lt.1 h') (String.not_lt.1 h))

theorem mem_insertEntry {name : String} {a : α} {e : String × α} {entries : List (String × α)}
    (h : e ∈ insertEntry name a entries) : e = (name, a) ∨ e ∈ entries := by
  induction entries with
  | nil => simpa [insertEntry] using h
  | cons f rest ih =>
    simp only [insertEntry] at h
    split at h
    · simpa using h
    · split at h
      · rcases List.mem_cons.1 h with rfl | h
        · exact .inl rfl
        · exact .inr (List.mem_cons_of_mem _ h)
      · rcases List.mem_cons.1 h with rfl | h
        · exact .inr List.mem_cons_self
        · exact (ih h).imp_right (List.mem_cons_of_mem _)

theorem pairwise_insertEntry (name : String) (a : α) {entries : List (String × α)}
    (h : entries.Pairwise fun x y => x.1 < y.1) :
    (insertEntry name a entries).Pairwise fun x y => x.1 < y.1 := by
  induction entries with
  | nil => simp [insertEntry]
  | cons e rest ih =>
    rw [List.pairwise_cons] at h
    simp only [insertEntry]
    split
    · next hlt =>
      refine List.pairwise_cons.2 ⟨fun f hf => ?_, List.pairwise_cons.2 h⟩
      rcases List.mem_cons.1 hf with rfl | hf
      · exact hlt
      · exact String.lt_trans hlt (h.1 f hf)
    · split
      · next heq => exact List.pairwise_cons.2 ⟨fun f hf => heq ▸ h.1 f hf, h.2⟩
      · next hlt hne =>
        refine List.pairwise_cons.2 ⟨fun f hf => ?_, ih h.2⟩
        rcases mem_insertEntry hf with rfl | hf
        · exact lt_of_not_lt_of_ne hlt hne
        · exact h.1 f hf

def empty : NameMap α := ⟨[], .nil⟩

def insert (m : NameMap α) (name : String) (a : α) : NameMap α :=
  ⟨insertEntry name a m.entries, pairwise_insertEntry name a m.ascending⟩

/-- Of several entries with one name the last one stays. -/
def ofList (entries : List (String × α)) : NameMap α :=
  entries.foldl (fun m e => m.insert e.1 e.2) empty

/-- The same names with other values. -/
def map (f : α → β) (m : NameMap α) : NameMap β :=
  ⟨m.entries.map fun e => (e.1, f e.2), List.pairwise_map.2 m.ascending⟩

def get? (m : NameMap α) (name : String) : Option α :=
  (m.entries.find? fun e => e.1 == name).map (·.2)

def contains (m : NameMap α) (name : String) : Bool :=
  m.entries.any fun e => e.1 == name

def names (m : NameMap α) : List String :=
  m.entries.map (·.1)

def values (m : NameMap α) : List α :=
  m.entries.map (·.2)

def size (m : NameMap α) : Nat :=
  m.entries.length

end NameMap

end LadderLogic
