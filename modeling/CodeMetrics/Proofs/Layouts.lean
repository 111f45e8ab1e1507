import Mathlib.Data.List.Nodup
import CodeMetrics.Json.Record
import CodeMetrics.Proofs.JsonText
import CodeMetrics.Proofs.Lists

/-! Documents of another layout. The members of a record may stand in any order, with members of
    other names among them, and some of them may be missing. A record is read from such a document
    with the defaults of the missing fields, unless a field without a default is missing: then it is
    not read at all. What is missing is said by paths from the root, so that each record of a
    document may lack fields of its own. -/

namespace CodeMetrics.Json

/-! ### Shapes and layouts -/

/-- One step into a document. -/
inductive Step where
  | member (name : String)
  | item (index : Nat)
deriving DecidableEq

/-- Which members were deleted from a document, by their paths. -/
def Deletion := List Step → Bool

namespace Deletion

/-- Nothing is deleted. -/
def none : Deletion := fun _ => false

/-- Whether the member of a name is deleted. -/
def hits (D : Deletion) (name : String) : Bool := D [.member name]

/-- What is deleted below a step. -/
def below (D : Deletion) (step : Step) : Deletion := fun path => D (step :: path)

end Deletion

/-- Whether a field may be missing. -/
inductive Presence where
  | required
  | defaulted
deriving DecidableEq

/-- Where the records of a document are. -/
inductive Shape where
  /-- A value that holds no record. -/
  | plain
  | list (item : Shape)
  /-- Values under names that are not those of fields. -/
  | map (value : Shape)
  | record (fields : List (String × Presence × Shape))

/-- The second document is the first one in another layout, without what is deleted. -/
inductive Edited : Shape → Deletion → Value → Value → Prop
  | plain {D : Deletion} {v : Value} : Edited .plain D v v
  | list {item : Shape} {D : Deletion} {vs ws : List Value} (length : ws.length = vs.length)
      (items : ∀ (i : Nat) (v w : Value), vs[i]? = some v → ws[i]? = some w →
        Edited item (D.below (.item i)) v w) :
      Edited (.list item) D (.list vs) (.list ws)
  | map {value : Shape} {D : Deletion} {ms ns : List (String × Value)}
      (names : ns.map Prod.fst = ms.map Prod.fst)
      (values : ∀ (i : Nat) (name : String) (v w : Value), ms[i]? = some (name, v) →
        ns[i]? = some (name, w) → Edited value (D.below (.member name)) v w) :
      Edited (.map value) D (.object ms) (.object ns)
  | record {fields : List (String × Presence × Shape)} {D : Deletion}
      {ms kept added ns : List (String × Value)} (order : ns.Perm (kept ++ added))
      (names : kept.map Prod.fst = (ms.map Prod.fst).filter fun name => !D.hits name)
      (values : ∀ (name : String) (presence : Presence) (shape : Shape) (v w : Value),
        fields.lookup name = some (presence, shape) → (name, v) ∈ ms → (name, w) ∈ kept →
        Edited shape (D.below (.member name)) v w)
      (others : ∀ m ∈ added, fields.lookup m.1 = none) :
      Edited (.record fields) D (.object ms) (.object ns)

/-- Some record of a document lacks a field without a default. -/
inductive Lacks : Shape → Deletion → Value → Prop
  | item {item : Shape} {D : Deletion} {vs : List Value} {i : Nat} {v : Value}
      (h : vs[i]? = some v) (lacks : Lacks item (D.below (.item i)) v) :
      Lacks (.list item) D (.list vs)
  | value {value : Shape} {D : Deletion} {ms : List (String × Value)} {name : String} {v : Value}
      (h : (name, v) ∈ ms) (lacks : Lacks value (D.below (.member name)) v) :
      Lacks (.map value) D (.object ms)
  | deleted {fields : List (String × Presence × Shape)} {D : Deletion}
      {ms : List (String × Value)} {name : String} {shape : Shape} {v : Value}
      (h : (name, v) ∈ ms) (field : fields.lookup name = some (.required, shape))
      (hit : D.hits name = true) : Lacks (.record fields) D (.object ms)
  | member {fields : List (String × Presence × Shape)} {D : Deletion}
      {ms : List (String × Value)} {name : String} {presence : Presence} {shape : Shape} {v : Value}
      (h : (name, v) ∈ ms) (field : fields.lookup name = some (presence, shape))
      (remains : D.hits name = false) (lacks : Lacks shape (D.below (.member name)) v) :
      Lacks (.record fields) D (.object ms)

section Records

variable {fields : List (String × Presence × Shape)} {D : Deletion} {ms ns : List (String × Value)}

theorem not_lacks_none {shape : Shape} {v : Value} : ¬Lacks shape .none v := by
  intro h
  generalize eq : Deletion.none = D at h
  induction h with
  | item _ _ ih | value _ _ ih => subst eq; exact ih rfl
  | deleted _ _ hit => subst eq; cases hit
  | member _ _ _ _ ih => subst eq; exact ih rfl

/-- A record may be edited member by member. -/
theorem Edited.each (f : String × Value → Value) (added : List (String × Value))
    (distinct : (ms.map Prod.fst).Nodup)
    (values : ∀ m ∈ ms, D.hits m.1 = false → ∃ presence shape,
      fields.lookup m.1 = some (presence, shape) ∧ Edited shape (D.below (.member m.1)) m.2 (f m))
    (order : ns.Perm (((ms.filter fun m => !D.hits m.1).map fun m => (m.1, f m)) ++ added))
    (others : ∀ m ∈ added, fields.lookup m.1 = none) :
    Edited (.record fields) D (.object ms) (.object ns) := by
  refine .record order ?_ ?_ others
  · rw [List.map_map, List.filter_map]
    rfl
  · intro name presence shape v w field hv hw
    obtain ⟨m, hm, ⟨⟩⟩ := List.mem_map.1 hw
    obtain ⟨mem, remains⟩ := List.mem_filter.1 hm
    obtain rfl : m.2 = v := congrArg Prod.snd (List.inj_on_of_nodup_map distinct mem hv rfl)
    obtain ⟨presence', shape', field', edited⟩ := values m mem (Bool.not_eq_true' _ ▸ remains)
    cases field.symm.trans field'
    exact edited

/-- A record lacks nothing where each member is deleted and has a default, or lacks nothing. -/
theorem not_lacks_record
    (members : ∀ m ∈ ms, ∃ presence shape, fields.lookup m.1 = some (presence, shape) ∧
      if D.hits m.1 then presence = .defaulted else ¬Lacks shape (D.below (.member m.1)) m.2) :
    ¬Lacks (.record fields) D (.object ms) := by
  intro h
  cases h with
  | deleted h field hit =>
    obtain ⟨presence', shape', field', intact⟩ := members _ h
    cases field.symm.trans field'
    rw [if_pos hit] at intact
    cases intact
  | member h field remains lacks =>
    obtain ⟨presence', shape', field', intact⟩ := members _ h
    cases field.symm.trans field'
    rw [if_neg (Bool.eq_false_iff.1 remains)] at intact
    exact intact lacks

/-! ### What is left of a record -/

theorem lookup_eq_some_iff_mem {α : Type} {l : List (String × α)}
    (distinct : (l.map Prod.fst).Nodup) {name : String} {a : α} :
    l.lookup name = some a ↔ (name, a) ∈ l := by
  rw [List.lookup_eq_some_iff]
  constructor
  · rintro ⟨front, back, rfl, -⟩
    exact List.mem_append_right front List.mem_cons_self
  · intro h
    obtain ⟨front, back, rfl⟩ := List.append_of_mem h
    refine ⟨front, back, rfl, fun p hp => ?_⟩
    rw [List.map_append, List.map_cons] at distinct
    have apart := List.disjoint_of_nodup_append distinct (List.mem_map_of_mem hp)
    exact bne_iff_ne.2 fun same => apart (same ▸ List.mem_cons_self)

theorem lookup_eq_none_iff_not_mem {α : Type} {l : List (String × α)} {name : String} :
    l.lookup name = none ↔ name ∉ l.map Prod.fst := by
  rw [List.lookup_eq_none_iff, List.mem_map]
  constructor
  · rintro h ⟨p, hp, rfl⟩
    exact bne_iff_ne.1 (h p hp) rfl
  · intro h p hp
    exact bne_iff_ne.2 fun same => h ⟨p, hp, same.symm⟩

/-- The members of a record that are left under known names. -/
structure Left (fields : List (String × Presence × Shape)) (D : Deletion)
    (ms known : List (String × Value)) : Prop where
  kept : ∀ {name : String} {presence : Presence} {shape : Shape} {v : Value},
    fields.lookup name = some (presence, shape) → ms.lookup name = some v → D.hits name = false →
      ∃ w, known.lookup name = some w ∧ Edited shape (D.below (.member name)) v w
  missing : ∀ {name : String}, ms.lookup name = none → known.lookup name = none
  deleted : ∀ {name : String}, D.hits name = true → known.lookup name = none

theorem Edited.left {w : Value} (h : Edited (.record fields) D (.object ms) w)
    (sub : (ms.map Prod.fst).Sublist (fields.map Prod.fst))
    (distinct : (fields.map Prod.fst).Nodup) :
    ∃ known, w.record? (fields.map Prod.fst) = some ⟨known⟩ ∧ Left fields D ms known := by
  cases h with
  | @record _ _ _ kept added ns order names values others =>
    have nodup : (ms.map Prod.fst).Nodup := distinct.sublist sub
    have nodupKept : (kept.map Prod.fst).Nodup := by
      rw [names]
      exact nodup.filter _
    -- the known names pick the kept members out of the new ones
    let known := ns.filter fun m => (fields.map Prod.fst).contains m.1
    have perm : known.Perm kept := by
      have first : (kept.filter fun m => (fields.map Prod.fst).contains m.1) = kept := by
        refine List.filter_eq_self.2 fun m hm => List.contains_iff_mem.2 (sub.subset ?_)
        have := List.mem_map_of_mem (f := Prod.fst) hm
        rw [names] at this
        exact List.mem_of_mem_filter this
      have second : (added.filter fun m => (fields.map Prod.fst).contains m.1) = [] := by
        refine List.filter_eq_nil_iff.2 fun m hm => ?_
        rw [List.contains_iff_mem]
        exact lookup_eq_none_iff_not_mem.1 (others m hm)
      have filtered := order.filter fun m => (fields.map Prod.fst).contains m.1
      rwa [List.filter_append, first, second, List.append_nil] at filtered
    have nodupKnown : (known.map Prod.fst).Nodup := (perm.map Prod.fst).nodup_iff.2 nodupKept
    have known_mem : ∀ name, name ∈ known.map Prod.fst ↔
        name ∈ ms.map Prod.fst ∧ D.hits name = false := by
      intro name
      rw [(perm.map Prod.fst).mem_iff, names, List.mem_filter, Bool.not_eq_true']
    refine ⟨known, if_pos nodupKnown, ?_, ?_, ?_⟩
    · intro name presence shape v field found remains
      have hv := (lookup_eq_some_iff_mem nodup).1 found
      have listed := (known_mem name).2 ⟨List.mem_map_of_mem (f := Prod.fst) hv, remains⟩
      obtain ⟨⟨_, w⟩, hw, rfl⟩ := List.mem_map.1 listed
      exact ⟨w, (lookup_eq_some_iff_mem nodupKnown).2 hw,
        values _ _ _ _ _ field hv (perm.subset hw)⟩
    · intro name missing
      rw [lookup_eq_none_iff_not_mem] at missing ⊢
      exact fun h => missing ((known_mem name).1 h).1
    · intro name hit
      rw [lookup_eq_none_iff_not_mem]
      intro h
      cases hit.symm.trans ((known_mem name).1 h).2

end Records

/-! ### Reading another layout -/

/-- What a reader makes of a value in every layout. -/
structure Reloads {α : Type} (shape : Shape) (read : Value → Option α) (v : Value)
    (a : Deletion → α) : Prop where
  plain : Plain v
  same : Edited shape .none v v
  full : ∀ {D : Deletion} {w : Value}, Edited shape D v w → ¬Lacks shape D v → read w = some (a D)
  lacking : ∀ {D : Deletion} {w : Value}, Edited shape D v w → Lacks shape D v → read w = none

namespace Reloads

variable {α : Type} {shape : Shape} {read : Value → Option α} {v : Value}

theorem leaf {a : α} (plain : Plain v) (value : read v = some a) :
    Reloads .plain read v fun _ => a where
  plain := plain
  same := .plain
  full := by
    rintro D w ⟨⟩ -
    exact value
  lacking := by rintro D w - ⟨⟩

/-- Where nothing is deleted, the value itself is read. -/
theorem value {a : Deletion → α} (h : Reloads shape read v a) : read v = some (a .none) :=
  h.full h.same not_lacks_none

/-- What is made of the result. -/
theorem map {β : Type} {a : Deletion → α} (h : Reloads shape read v a) (g : α → β) :
    Reloads shape (fun w => (read w).map g) v fun D => g (a D) where
  plain := h.plain
  same := h.same
  full edited complete := by rw [h.full edited complete, Option.map_some]
  lacking edited lacks := by rw [h.lacking edited lacks, Option.map_none]

theorem list {β : Type} {write : β → Value} {a : β → Deletion → α} {l : List β}
    (h : ∀ b ∈ l, Reloads shape read (write b) (a b)) :
    Reloads (.list shape) (Value.listOf? read) (.list (l.map write))
      fun D => l.mapIdx fun i b => a b (D.below (.item i)) where
  plain := by
    refine .list fun v hv => ?_
    obtain ⟨b, hb, rfl⟩ := List.mem_map.1 hv
    exact (h b hb).plain
  same := by
    refine .list rfl fun i v w hv hw => ?_
    obtain rfl := Option.some.inj (hv.symm.trans hw)
    obtain ⟨b, hb, rfl⟩ := List.mem_map.1 (List.mem_of_getElem? hv)
    exact (h b hb).same
  full := by
    intro D w edited complete
    cases edited with
    | list length items =>
      rw [List.length_map] at length
      refine mapM_eq_some (by rw [length, List.length_mapIdx]) fun i w x hw hx => ?_
      rw [List.getElem?_mapIdx, Option.map_eq_some_iff] at hx
      obtain ⟨b, hb, rfl⟩ := hx
      have found : (l.map write)[i]? = some (write b) := by
        rw [List.getElem?_map, hb, Option.map_some]
      exact (h b (List.mem_of_getElem? hb)).full (items i _ w found hw)
        fun lacks => complete (.item found lacks)
  lacking := by
    intro D w edited lacks
    cases edited with
    | @list _ _ _ ws length items =>
      cases lacks with
      | @item _ _ _ i v found lacks =>
        obtain ⟨b, hb, rfl⟩ := List.mem_map.1 (List.mem_of_getElem? found)
        have bound : i < ws.length := by
          rw [length]
          exact (List.getElem?_eq_some_iff.1 found).1
        have hw := List.getElem?_eq_getElem bound
        exact mapM_eq_none (List.mem_of_getElem? hw) ((h b hb).lacking (items i _ _ found hw) lacks)

/-- A list of items whose fields have no defaults. -/
theorem list_same {β : Type} {write : β → Value} {l : List β} {read : Value → Option β}
    (h : ∀ b ∈ l, Reloads shape read (write b) fun _ => b) :
    Reloads (.list shape) (Value.listOf? read) (.list (l.map write)) fun _ => l := by
  have items := list h
  rwa [mapIdx_eq_self fun _ _ => rfl] at items

theorem value_at {ms ns : List (String × Value)} (names : ns.map Prod.fst = ms.map Prod.fst)
    {i : Nat} {name : String} {v : Value} (h : ms[i]? = some (name, v)) :
    ∃ w, ns[i]? = some (name, w) := by
  have same : (ns.map Prod.fst)[i]? = some name := by
    rw [names, List.getElem?_map, h, Option.map_some]
  rw [List.getElem?_map, Option.map_eq_some_iff] at same
  obtain ⟨m, hm, rfl⟩ := same
  exact ⟨m.2, hm⟩

/-- Values under names of their own are read one by one. -/
theorem members {write : α → Value} {l : List (String × α)}
    (h : ∀ e ∈ l, Reloads shape read (write e.2) fun _ => e.2) :
    Reloads (.map shape) (Value.membersOf? read) (.object (l.map fun e => (e.1, write e.2)))
      fun _ => l where
  plain := by
    refine .object fun m hm => ?_
    obtain ⟨e, he, rfl⟩ := List.mem_map.1 hm
    exact (h e he).plain
  same := by
    refine .map rfl fun i name v w hv hw => ?_
    obtain ⟨⟩ := hv.symm.trans hw
    obtain ⟨e, he, ⟨⟩⟩ := List.mem_map.1 (List.mem_of_getElem? hv)
    exact (h e he).same
  full := by
    intro D w edited complete
    cases edited with
    | @map _ _ _ ns names values =>
      have length : ns.length = l.length := by simpa using congrArg List.length names
      refine mapM_eq_some length fun i m e hm he => ?_
      have found : (l.map fun e => (e.1, write e.2))[i]? = some (e.1, write e.2) := by
        rw [List.getElem?_map, he, Option.map_some]
      obtain ⟨w, hw⟩ := value_at names found
      obtain rfl : m = (e.1, w) := Option.some.inj (hm.symm.trans hw)
      have value := (h e (List.mem_of_getElem? he)).full (values i e.1 _ w found hw)
        fun lacks => complete (.value (List.mem_of_getElem? found) lacks)
      simp [value]
  lacking := by
    intro D w edited lacks
    cases edited with
    | @map _ _ _ ns names values =>
      cases lacks with
      | @value _ _ _ name v found lacks =>
        obtain ⟨i, hi⟩ := List.getElem?_of_mem found
        obtain ⟨e, he, ⟨⟩⟩ := List.mem_map.1 found
        obtain ⟨w, hw⟩ := value_at names hi
        have value := (h e he).lacking (values i e.1 _ w hi hw) lacks
        exact mapM_eq_none (List.mem_of_getElem? hw) (by simp [value])

end Reloads

/-! ### Records, field by field -/

/-- A record is not read for want of a member. -/
def Wanting (fields : List (String × Presence × Shape)) (D : Deletion) (m : String × Value) :
    Prop :=
  ∃ presence shape, fields.lookup m.1 = some (presence, shape) ∧
    (D.hits m.1 = true ∧ presence = .required ∨
      D.hits m.1 = false ∧ Lacks shape (D.below (.member m.1)) m.2)

theorem lacks_record_iff {fields : List (String × Presence × Shape)} {D : Deletion}
    {ms : List (String × Value)} :
    Lacks (.record fields) D (.object ms) ↔ ∃ m ∈ ms, Wanting fields D m := by
  constructor
  · intro h
    cases h with
    | deleted h field hit => exact ⟨_, h, _, _, field, Or.inl ⟨hit, rfl⟩⟩
    | member h field remains lacks => exact ⟨_, h, _, _, field, Or.inr ⟨remains, lacks⟩⟩
  · rintro ⟨m, hm, presence, shape, field, ⟨hit, rfl⟩ | ⟨remains, lacks⟩⟩
    · exact .deleted hm field hit
    · exact .member hm field remains lacks

/-- What is read of a record, field by field, in the order in which its members were written. -/
structure Fields {β : Type} (fields : List (String × Presence × Shape))
    (all : List (String × Value)) (D : Deletion) (known rest : List (String × Value))
    (body : Option β) (b : β) : Prop where
  plain : ∀ m ∈ rest, Plain m.2
  same : ∀ m ∈ rest, ∃ presence shape, fields.lookup m.1 = some (presence, shape) ∧
    Edited shape .none m.2 m.2
  full : Left fields D all known → (∀ m ∈ rest, ¬Wanting fields D m) → body = some b
  lacking : Left fields D all known → (∃ m ∈ rest, Wanting fields D m) → body = none

namespace Fields

variable {α β : Type} {fields : List (String × Presence × Shape)}
  {all known rest : List (String × Value)} {D : Deletion} {name : String} {shape : Shape}
  {v : Value} {read : Value → Option α} {a : Deletion → α} {next : α → Option β} {b b' : β}

theorem done (same : b' = b) : Fields fields all D known [] (some b') b where
  plain := List.forall_mem_nil _
  same := List.forall_mem_nil _
  full _ _ := congrArg some same
  lacking := by rintro _ ⟨m, ⟨⟩, -⟩

/-- One field, then the others. -/
theorem step {x : Option α} {y : α} (plain : Plain v)
    (same : ∃ presence shape, fields.lookup name = some (presence, shape) ∧ Edited shape .none v v)
    (full : Left fields D all known → ¬Wanting fields D (name, v) → x = some y)
    (lacking : Left fields D all known → Wanting fields D (name, v) → x = none)
    (more : Fields fields all D known rest (next y) b) :
    Fields fields all D known ((name, v) :: rest) (x >>= next) b where
  plain := List.forall_mem_cons.2 ⟨plain, more.plain⟩
  same := List.forall_mem_cons.2 ⟨same, more.same⟩
  full := by
    intro left complete
    obtain ⟨here, complete⟩ := List.forall_mem_cons.1 complete
    rw [full left here]
    exact more.full left complete
  lacking := by
    rintro left ⟨m, hm, wanting⟩
    by_cases here : Wanting fields D (name, v)
    · rw [lacking left here]; rfl
    · rcases List.mem_cons.1 hm with rfl | hm
      · exact absurd wanting here
      · rw [full left here]
        exact more.lacking left ⟨m, hm, wanting⟩

/-- A field is read where it remains. -/
theorem remaining {presence : Presence} (found : all.lookup name = some v)
    (field : fields.lookup name = some (presence, shape)) (h : Reloads shape read v a)
    (remains : D.hits name = false) (left : Left fields D all known) :
    ∃ w, known.lookup name = some w ∧
      (¬Wanting fields D (name, v) → read w = some (a (D.below (.member name)))) ∧
      (Wanting fields D (name, v) → read w = none) := by
  obtain ⟨w, lookup, edited⟩ := left.kept field found remains
  refine ⟨w, lookup, fun complete => ?_, ?_⟩
  · exact h.full edited fun lacks => complete ⟨_, _, field, Or.inr ⟨remains, lacks⟩⟩
  · rintro ⟨presence', shape', field', ⟨hit, -⟩ | ⟨-, lacks⟩⟩
    · cases remains.symm.trans hit
    · cases field.symm.trans field'
      exact h.lacking edited lacks

theorem required (found : all.lookup name = some v)
    (field : fields.lookup name = some (.required, shape)) (h : Reloads shape read v a)
    (more : Fields fields all D known rest (next (a (D.below (.member name)))) b) :
    Fields fields all D known ((name, v) :: rest)
      (Record.required ⟨known⟩ name read >>= next) b := by
  refine step h.plain ⟨_, _, field, h.same⟩ (fun left complete => ?_) (fun left wanting => ?_) more
  · cases hit : D.hits name with
    | true => exact absurd ⟨_, _, field, Or.inl ⟨hit, rfl⟩⟩ complete
    | false =>
      obtain ⟨w, lookup, full, -⟩ := remaining found field h hit left
      rw [Record.required, lookup]
      exact full complete
  · cases hit : D.hits name with
    | true => rw [Record.required, left.deleted hit]; rfl
    | false =>
      obtain ⟨w, lookup, -, lacking⟩ := remaining found field h hit left
      rw [Record.required, lookup]
      exact lacking wanting

theorem defaulted {default : α} (found : all.lookup name = some v)
    (field : fields.lookup name = some (.defaulted, shape)) (h : Reloads shape read v a)
    (more : Fields fields all D known rest
      (next (if D.hits name then default else a (D.below (.member name)))) b) :
    Fields fields all D known ((name, v) :: rest)
      (Record.withDefault ⟨known⟩ name read default >>= next) b := by
  refine step h.plain ⟨_, _, field, h.same⟩ (fun left complete => ?_) (fun left wanting => ?_) more
  · cases hit : D.hits name with
    | true => rw [Record.withDefault, left.deleted hit]; rfl
    | false =>
      obtain ⟨w, lookup, full, -⟩ := remaining found field h hit left
      rw [Record.withDefault, lookup]
      exact full complete
  · cases hit : D.hits name with
    | true =>
      obtain ⟨presence, shape', field', ⟨-, rfl⟩ | ⟨remains, -⟩⟩ := wanting
      · cases field.symm.trans field'
      · cases hit.symm.trans remains
    | false =>
      obtain ⟨w, lookup, -, lacking⟩ := remaining found field h hit left
      rw [Record.withDefault, lookup]
      exact lacking wanting

/-- A field that was not written has its default. -/
theorem absent {default : α} (missing : all.lookup name = none)
    (more : Fields fields all D known rest (next default) b) :
    Fields fields all D known rest (Record.withDefault ⟨known⟩ name read default >>= next) b where
  plain := more.plain
  same := more.same
  full := by
    intro left complete
    rw [Record.withDefault, left.missing missing]
    exact more.full left complete
  lacking := by
    intro left wanting
    rw [Record.withDefault, left.missing missing]
    exact more.lacking left wanting

/-- A record is read from an object with its fields in order, some of them left out. -/
theorem reloads {names : List String} {body : Record → Option β} {a : Deletion → β}
    (listed : fields.map Prod.fst = names) (written : (all.map Prod.fst).isSublist names = true)
    (distinct : names.Nodup)
    (read : ∀ D known, Fields fields all D known all (body ⟨known⟩) (a D)) :
    Reloads (.record fields) (fun v => v.record? names >>= body) (.object all) a := by
  subst listed
  rw [List.isSublist_iff_sublist] at written
  have nodup : (all.map Prod.fst).Nodup := distinct.sublist written
  refine ⟨.object (read .none []).plain, ?_, ?_, ?_⟩
  · refine .each Prod.snd [] nodup (fun m hm _ => (read .none []).same m hm) ?_
      (List.forall_mem_nil _)
    have kept : (all.filter fun m => !Deletion.none.hits m.1) = all :=
      List.filter_eq_self.2 fun _ _ => rfl
    rw [List.append_nil, kept]
    exact .of_eq (List.map_id all).symm
  · intro D w edited complete
    obtain ⟨known, opened, left⟩ := edited.left written distinct
    rw [opened]
    refine (read D known).full left fun m hm wanting => complete ?_
    exact lacks_record_iff.2 ⟨m, hm, wanting⟩
  · intro D w edited lacks
    obtain ⟨known, opened, left⟩ := edited.left written distinct
    rw [opened]
    exact (read D known).lacking left (lacks_record_iff.1 lacks)

end Fields

end CodeMetrics.Json
