import LadderLogic.Project.Json
import LadderLogic.Proofs.Json.Text

/-! Decoders that undo an encoding. A field is left out of a record only where its blank value is the one meant.
-/
namespace LadderLogic.Json

/-- The value `v` stands for `a`. -/
structure Decoder.Reads (decoder : Decoder α) (v : Json) (a : α) : Prop where
  readsBack : v.ReadsBack
  decode_eq : decoder (.ofJson v) = .ok a

namespace Decoder.Reads

theorem readText_eq {decoder : Decoder α} {v : Json} {a : α} (h : decoder.Reads v a) :
    readText decoder v.compact = .ok a := by
  rw [h.readsBack.readText_compact, h.decode_eq]

theorem string (s : String) : Decoder.string.Reads (.string s) s :=
  ⟨.string s, rfl⟩

theorem bool (b : Bool) : Decoder.bool.Reads (.bool b) b :=
  ⟨.bool b, rfl⟩

theorem natural {n bound : Nat} (h : n < bound) (hbound : bound ≤ UInt64.size) (title : String) :
    (Decoder.natural bound title).Reads (.nat n) n :=
  ⟨.natural (lt_of_lt_of_le h hbound), if_pos h⟩

theorem word32 (n : UInt32) : Decoder.word32.Reads (.word32 n) n := by
  have hnat := natural n.toNat_lt_size (by decide) "u32"
  refine ⟨hnat.readsBack, ?_⟩
  rw [Decoder.word32, Json.word32, hnat.decode_eq, Except.map, UInt32.ofNat_toNat]

theorem word64 (n : UInt64) : Decoder.word64.Reads (.nat n.toNat) n := by
  have hnat := natural n.toNat_lt_size le_rfl "usize"
  refine ⟨hnat.readsBack, ?_⟩
  rw [Decoder.word64, count, hnat.decode_eq, Except.map, UInt64.ofNat_toNat]

theorem count {n : Nat} (h : n < UInt64.size) : Decoder.count.Reads (.nat n) n :=
  natural h le_rfl "usize"

/-- A value is known by its name if no other has that name. -/
theorem named {all : List α} {name : α → String} (hnames : (all.map name).Nodup) {a : α} (ha : a ∈ all) :
    (Decoder.named all name).Reads (.string (name a)) a := by
  have hfind : all.find? (fun b => name b == name a) = some a := by
    induction all with
    | nil => cases ha
    | cons b all ih =>
      rw [List.map_cons, List.nodup_cons] at hnames
      rcases List.mem_cons.1 ha with rfl | hmem
      · exact List.find?_cons_of_pos (by simp)
      · have hne : name b ≠ name a := fun heq => hnames.1 (heq ▸ List.mem_map_of_mem hmem)
        rw [List.find?_cons_of_neg (by simpa using hne)]
        exact ih hnames.2 hmem
  refine ⟨.string _, ?_⟩
  rw [Document.ofJson, Decoder.named, Decoder.named.find, hfind]

theorem option {decoder : Decoder α} {v : Json} {a : α} (h : decoder.Reads v a) (hnull : v ≠ .null) :
    (Decoder.option decoder).Reads v (some a) := by
  refine ⟨h.readsBack, ?_⟩
  have hdecode := h.decode_eq
  cases v with
  | null => exact absurd rfl hnull
  | _ =>
    rw [Document.ofJson] at hdecode ⊢
    rw [Decoder.option, hdecode, Except.map]
    intro heq
    cases heq

theorem list {decoder : Decoder α} {encode : α → Json} {as : List α}
    (h : ∀ a ∈ as, decoder.Reads (encode a) a) : (Decoder.list decoder).Reads (.array (as.map encode)) as := by
  have hitems : Decoder.items decoder (.ofList (as.map encode)) = .ok as := by
    induction as with
    | nil => rfl
    | cons a as ih =>
      have ha := h a List.mem_cons_self
      have has := ih fun b hb => h b (List.mem_cons_of_mem a hb)
      rw [List.map_cons, Items.ofList, Decoder.items, ha.decode_eq, has]
      rfl
  refine ⟨.array ?_, by rw [Document.ofJson]; exact hitems⟩
  intro v hv
  obtain ⟨a, ha, rfl⟩ := List.mem_map.1 hv
  exact (h a ha).readsBack

theorem strings (ss : List String) : (Decoder.list Decoder.string).Reads (.strings ss) ss :=
  .list fun s _ => .string s

theorem table {decoder : Decoder α} {encode : α → Json} {es : List (String × α)}
    (h : ∀ e ∈ es, decoder.Reads (encode e.2) e.2) :
    (Decoder.table decoder).Reads (.object (es.map fun e => (e.1, encode e.2))) es := by
  have hmembers : Decoder.members decoder (.ofList (es.map fun e => (e.1, encode e.2))) = .ok es := by
    induction es with
    | nil => rfl
    | cons e es ih =>
      have he := h e List.mem_cons_self
      have hes := ih fun f hf => h f (List.mem_cons_of_mem e hf)
      rw [List.map_cons, Members.ofList, Decoder.members, he.decode_eq, hes]
      rfl
  refine ⟨.object ?_, by rw [Document.ofJson]; exact hmembers⟩
  intro m hm
  obtain ⟨e, he, rfl⟩ := List.mem_map.1 hm
  exact (h e he).readsBack

end Decoder.Reads

/-- The fields turn `a` into `b` with these members, which are in their order. Some that are not required are left
out. -/
inductive Record.Writes : List (Field α) → α → List (String × Json) → α → Prop
  | done (a : α) : Writes [] a [] a
  | member {f : Field α} {fs : List (Field α)} {a b : α} {v : Json} {set : α → α} {ms : List (String × Json)}
    (hv : v.ReadsBack) (hset : f.update (.ofJson v) = .ok set) (h : Writes fs (set a) ms b) :
    Writes (f :: fs) a ((f.name, v) :: ms) b
  | omitted {f : Field α} {fs : List (Field α)} {a b : α} {ms : List (String × Json)}
    (hrequired : f.required = false) (h : Writes fs a ms b) : Writes (f :: fs) a ms b

namespace Record

theorem Writes.readsBack {fs : List (Field α)} {a b : α} {ms : List (String × Json)} (h : Writes fs a ms b) :
    ∀ m ∈ ms, m.2.ReadsBack := by
  induction h with
  | done a => exact fun m hm => absurd hm List.not_mem_nil
  | member hv hset h ih =>
    intro m hm
    rcases List.mem_cons.1 hm with rfl | hm
    · exact hv
    · exact ih m hm
  | omitted hrequired h ih => exact ih

/-- The fields in `done` have been passed and those in `rest` are to come. -/
structure Progress (r : Record α) (done rest : List (Field α)) (seen : List String) : Prop where
  fields_eq : r.fields = done ++ rest
  mem_names : ∀ s ∈ seen, s ∈ done.map (·.name)
  mem_seen : ∀ f ∈ done, f.required → f.name ∈ seen

namespace Progress

variable {r : Record α} {f : Field α} {done rest : List (Field α)} {seen : List String}

theorem start (r : Record α) : Progress r [] r.fields [] where
  fields_eq := rfl
  mem_names := fun _ hs => absurd hs List.not_mem_nil
  mem_seen := fun _ hf => absurd hf List.not_mem_nil

theorem pass (h : Progress r done (f :: rest) seen) (hrequired : f.required = false) :
    Progress r (done ++ [f]) rest seen where
  fields_eq := by rw [h.fields_eq, List.append_assoc, List.singleton_append]
  mem_names := by
    intro s hs
    rw [List.map_append]
    exact List.mem_append_left _ (h.mem_names s hs)
  mem_seen := by
    intro g hg hg'
    rcases List.mem_append.1 hg with hg | hg
    · exact h.mem_seen g hg hg'
    · rw [List.mem_singleton.1 hg, hrequired] at hg'
      cases hg'

theorem see (h : Progress r done (f :: rest) seen) : Progress r (done ++ [f]) rest (f.name :: seen) where
  fields_eq := by rw [h.fields_eq, List.append_assoc, List.singleton_append]
  mem_names := by
    intro s hs
    rw [List.map_append, List.mem_append]
    rcases List.mem_cons.1 hs with rfl | hs
    · exact .inr List.mem_cons_self
    · exact .inl (h.mem_names s hs)
  mem_seen := by
    intro g hg hg'
    rcases List.mem_append.1 hg with hg | hg
    · exact List.mem_cons_of_mem _ (h.mem_seen g hg hg')
    · rw [List.mem_singleton.1 hg]
      exact List.mem_cons_self

theorem missing?_eq_none (h : Progress r done [] seen) : r.missing? seen = none := by
  rw [missing?, h.fields_eq, List.append_nil, Option.map_eq_none_iff, List.find?_eq_none]
  intro f hf
  simpa using h.mem_seen f hf

theorem name_not_mem (h : Progress r done (f :: rest) seen) (hnames : r.fieldNames.Nodup) :
    f.name ∉ done.map (·.name) := by
  rw [fieldNames, h.fields_eq, List.map_append, List.map_cons, List.nodup_append] at hnames
  intro hmem
  exact hnames.2.2 _ hmem _ List.mem_cons_self rfl

theorem find?_name (h : Progress r done (f :: rest) seen) (hnames : r.fieldNames.Nodup) :
    r.fields.find? (·.name == f.name) = some f := by
  have hdone : done.find? (·.name == f.name) = none := by
    rw [List.find?_eq_none]
    intro g hg hname
    exact h.name_not_mem hnames (List.mem_map.2 ⟨g, hg, eq_of_beq hname⟩)
  rw [h.fields_eq, List.find?_append, hdone, Option.none_or, List.find?_cons_of_pos (by simp)]

end Progress

theorem Writes.readMembers_eq {r : Record α} (hnames : r.fieldNames.Nodup) {done rest : List (Field α)}
    {seen : List String} {a b : α} {ms : List (String × Json)} (h : Writes rest a ms b)
    (hprogress : Progress r done rest seen) : r.readMembers seen a (.ofList ms) = .ok b := by
  induction h generalizing done seen with
  | done a =>
    rw [Members.ofList, Record.readMembers, hprogress.missing?_eq_none]
    rfl
  | @member f rest a b v set ms hv hset h ih =>
    have hunseen : f.name ∉ seen := fun hmem =>
      hprogress.name_not_mem hnames (hprogress.mem_names _ hmem)
    have hrest := ih hprogress.see
    rw [Members.ofList, Record.readMembers]
    simp [Except.mapError, hprogress.find?_name hnames, hunseen, hset, hrest, bind, Except.bind]
  | omitted hrequired h ih => exact ih (hprogress.pass hrequired)

/-- A record reads what its fields write. -/
theorem decode_reads {r : Record α} (hnames : r.fieldNames.Nodup) {a : α} {ms : List (String × Json)}
    (h : Writes r.fields r.blank ms a) : Decoder.Reads r.decode (.object ms) a := by
  refine ⟨.object h.readsBack, ?_⟩
  rw [Document.ofJson, decode]
  exact h.readMembers_eq hnames (.start r)

namespace Writes

theorem value {f : Field α} {fs : List (Field α)} {inner : Decoder β} {set : β → α → α} {v : Json} {x : β}
    {a b : α} {ms : List (String × Json)} (hf : f.update = fun d => (inner d).map set)
    (hv : inner.Reads v x) (h : Writes fs (set x a) ms b) : Writes (f :: fs) a ((f.name, v) :: ms) b := by
  refine .member hv.readsBack ?_ h
  simp only [hf, hv.decode_eq, Except.map]

/-- A field with nothing in it is left out. -/
theorem option {name : String} {fs : List (Field α)} {inner : Decoder β} {set : Option β → α → α}
    {encode : β → Json} {a b : α} {ms : List (String × Json)} (x : Option β)
    (hread : ∀ y, inner.Reads (encode y) y) (hnull : ∀ y, encode y ≠ .null) (hnone : set none a = a)
    (h : Writes fs (set x a) ms b) :
    Writes (.optional name (Decoder.option inner) set :: fs) a (Json.optional name (x.map encode) ++ ms) b := by
  cases x with
  | none =>
    rw [hnone] at h
    exact .omitted rfl h
  | some y => exact .value rfl ((hread y).option (hnull y)) h

/-- A list without items is left out. -/
theorem unlessEmpty {name : String} {fs : List (Field α)} {inner : Decoder β} {set : List β → α → α}
    {encode : β → Json} {a b : α} {ms : List (String × Json)} (xs : List β)
    (hread : ∀ x ∈ xs, inner.Reads (encode x) x) (hnil : set [] a = a) (h : Writes fs (set xs a) ms b) :
    Writes (.optional name (Decoder.list inner) set :: fs) a (Json.unlessEmpty name encode xs ++ ms) b := by
  cases xs with
  | nil =>
    rw [hnil] at h
    exact .omitted rfl h
  | cons x xs => exact .value rfl (.list hread) h

end Writes

end Record

end LadderLogic.Json
