import FlowPlan.Pipeline.Catalog
import FlowPlan.Proofs.Counting
import FlowPlan.Proofs.Outcome

namespace FlowPlan

open Outcome

namespace Store

variable {s : Store} {c : Container} {name : String}

/-- The container that the catalog has under a name. -/
def named? (s : Store) (name : String) : Option Container :=
  (s.catalog.lookup name).bind s.container?

/-- The catalog only has containers that there are. -/
def Sound (s : Store) : Prop :=
  ∀ name id, s.catalog.lookup name = some id → id < s.containers.length

theorem addRegistered_eq (s : Store) (c : Container) : s.addRegistered c =
    ⟨s.containers ++ [c],
      (c.name, s.containers.length) :: s.catalog.filter fun (other, _) => other != c.name⟩ := by
  simp [addRegistered, add, register, container?]

theorem lookup_addRegistered (s : Store) (c : Container) (name : String) :
    (s.addRegistered c).catalog.lookup name =
      if name = c.name then some s.containers.length else s.catalog.lookup name := by
  rw [addRegistered_eq, List.lookup_cons]
  split
  next h => rw [if_pos (beq_iff_eq.mp h)]
  next h =>
    have hne : name ≠ c.name := beq_eq_false_iff_ne.mp h
    rw [if_neg hne, lookup_others _ hne]

theorem sound_empty : Store.empty.Sound := by
  intro name id h
  cases h

theorem Sound.addRegistered (hs : s.Sound) (c : Container) : (s.addRegistered c).Sound := by
  intro name id h
  rw [lookup_addRegistered] at h
  rw [addRegistered_eq, List.length_append, List.length_singleton]
  split at h
  next =>
    cases h
    exact Nat.lt_succ_self _
  next => exact Nat.lt_succ_of_lt (hs name id h)

theorem named?_addRegistered_self (s : Store) (c : Container) :
    (s.addRegistered c).named? c.name = some c := by
  rw [named?, lookup_addRegistered, if_pos rfl, Option.bind_some, addRegistered_eq, container?]
  exact List.getElem?_concat_length

theorem Sound.named?_addRegistered_of_ne (hs : s.Sound) (h : name ≠ c.name) :
    (s.addRegistered c).named? name = s.named? name := by
  rw [named?, named?, lookup_addRegistered, if_neg h]
  cases hid : s.catalog.lookup name with
  | none => rfl
  | some id =>
    rw [Option.bind_some, Option.bind_some, container?, container?, addRegistered_eq]
    exact List.getElem?_append_left (hs name id hid)

theorem find_eq_ok (h : s.named? name = some c) :
    ∃ id, s.find name = .ok id ∧ s.container? id = some c := by
  obtain ⟨id, hid, hc⟩ := Option.bind_eq_some_iff.mp h
  exact ⟨id, by rw [find, hid], hc⟩

theorem rowCount?_of_named?_none (h : s.named? name = none) : s.rowCount? name = .ok none := by
  rw [named?] at h
  rw [rowCount?, h]

end Store

theorem Estimates.scanRows_ofStore {ν : Type} [Quantity ν] (settings : Settings ν) {store : Store}
    {name : String} {found : Option UInt64} (h : store.rowCount? name = .ok found) (t : Traits)
    (s : Schema) (inputs : List Plan) :
    (ofStore settings store).scanRows (.node t (.scan name s) inputs) =
      .ok (Quantity.ofNat (found.elim unknownRows UInt64.toNat)) := by
  simp only [ofStore, ofCounts, Plan.op, h]
  cases found <;> rfl

namespace ContainerSpec

variable {d : ContainerSpec} {c : Container}

/-- A map with at least one partition, if it has partitions. -/
structure Scannable (d : ContainerSpec) : Prop where
  map : d.kind = .partitionedMap ∨ d.kind = .replicatedMap
  partitioned : ¬(d.kind = .partitionedMap ∧ d.partitions = some 0)

theorem exists_container_iff : (∃ c, d.container = .ok c) ↔ d.Scannable := by
  cases hk : d.kind with
  | partitionedMap =>
    have hscannable : d.Scannable ↔ d.partitions ≠ some 0 :=
      ⟨fun h hzero => h.partitioned ⟨hk, hzero⟩, fun h => ⟨.inl hk, fun hp => h hp.2⟩⟩
    rw [hscannable, container]
    cases hp : d.partitions with
    | none => simp [hk, defaultPartitions]
    | some n => cases n <;> simp [hk]
  | replicatedMap =>
    refine iff_of_true ⟨_, by rw [container, hk]⟩ ⟨.inr hk, ?_⟩
    rintro ⟨hpartitioned, -⟩
    cases hk.symm.trans hpartitioned
  | queue | list | topic =>
    refine iff_of_false ?_ fun h => ?_
    · rintro ⟨c, h⟩
      simp only [container, hk] at h
      cases h
    · simpa [hk] using h.map

/-- A container as it was declared. -/
structure Made (d : ContainerSpec) (c : Container) : Prop where
  name : c.name = d.name
  kind : c.kind = d.kind
  rows : c.rowCount = .ok d.entries
  partitions : d.kind = .partitionedMap → 0 < d.partitions.getD defaultPartitions ∧
    c.counter = .partitions (Counter.spread (d.partitions.getD defaultPartitions) d.entries)

theorem made_of_container (h : d.container = .ok c) : d.Made c := by
  cases hk : d.kind with
  | partitionedMap =>
    simp only [container, hk] at h
    split at h
    next => cases h
    next hzero =>
      cases h
      have hpos : 0 < d.partitions.getD defaultPartitions := Nat.pos_of_ne_zero hzero
      have hmax : max (d.partitions.getD defaultPartitions) 1 =
          d.partitions.getD defaultPartitions := Nat.max_eq_left hpos
      refine ⟨rfl, hk.symm, ?_, fun _ => ⟨hpos, by rw [Container.partitionedMap, hmax]⟩⟩
      rw [Container.partitionedMap, hmax, Container.rowCount, Counter.size?,
        Counter.sum_spread hpos]
  | replicatedMap =>
    simp only [container, hk] at h
    cases h
    refine ⟨rfl, hk.symm, rfl, fun hpartitioned => ?_⟩
    cases hk.symm.trans hpartitioned
  | queue | list | topic =>
    simp only [container, hk] at h
    cases h

end ContainerSpec

namespace Pipeline

variable {s store : Store} {specs : List ContainerSpec}

theorem exists_register_iff (s : Store) (specs : List ContainerSpec) :
    (∃ store, register s specs = .ok store) ↔ ∀ d ∈ specs, d.Scannable := by
  induction specs generalizing s with
  | nil => exact iff_of_true ⟨s, rfl⟩ (by simp)
  | cons d rest ih =>
    rw [List.forall_mem_cons, ← ContainerSpec.exists_container_iff]
    constructor
    · rintro ⟨store, h⟩
      obtain ⟨c, hc, h⟩ := bind_eq_ok.mp h
      exact ⟨⟨c, hc⟩, (ih _).mp ⟨store, h⟩⟩
    · rintro ⟨⟨c, hc⟩, hrest⟩
      obtain ⟨store, h⟩ := (ih (s.addRegistered c)).mpr hrest
      exact ⟨store, bind_eq_ok.mpr ⟨c, hc, h⟩⟩

/-- Containers of other names leave what is under a name alone. -/
theorem named?_register_of_others {name : String} (hs : s.Sound)
    (h : register s specs = .ok store) (hothers : ∀ d ∈ specs, d.name ≠ name) :
    store.named? name = s.named? name := by
  induction specs generalizing s with
  | nil =>
    cases h
    rfl
  | cons d rest ih =>
    obtain ⟨hd, hrest⟩ := List.forall_mem_cons.mp hothers
    obtain ⟨c, hc, h⟩ := bind_eq_ok.mp h
    have hname : name ≠ c.name := (ContainerSpec.made_of_container hc).name ▸ hd.symm
    rw [ih (hs.addRegistered c) h hrest, hs.named?_addRegistered_of_ne hname]

/-- What is declared later is added to a store that already has a declared container. -/
theorem exists_added {before after : List ContainerSpec} {d : ContainerSpec} (hs : s.Sound)
    (h : register s (before ++ d :: after) = .ok store) : ∃ (reached : Store) (c : Container),
      reached.Sound ∧ d.container = .ok c ∧ register (reached.addRegistered c) after = .ok store := by
  induction before generalizing s with
  | nil =>
    obtain ⟨c, hc, h⟩ := bind_eq_ok.mp h
    exact ⟨s, c, hs, hc, h⟩
  | cons first rest ih =>
    obtain ⟨c, -, h⟩ := bind_eq_ok.mp h
    exact ih (hs.addRegistered c) h

/-- The last container of its name is the one that the catalog has. -/
theorem named?_register_of_last {before after : List ContainerSpec} {d : ContainerSpec}
    (hs : s.Sound) (h : register s (before ++ d :: after) = .ok store)
    (hlast : ∀ other ∈ after, other.name ≠ d.name) :
    ∃ c, d.Made c ∧ store.named? d.name = some c := by
  obtain ⟨reached, c, hreached, hc, h⟩ := exists_added hs h
  have hmade := ContainerSpec.made_of_container hc
  refine ⟨c, hmade, ?_⟩
  rw [named?_register_of_others (hreached.addRegistered c) h hlast, ← hmade.name,
    Store.named?_addRegistered_self]

/-- A pipeline has a catalog if and only if it declares only maps, none of them with no partitions.
The catalog has the last container of each name, with exactly the rows that were declared; its
partitions share them evenly, and their counts add up without going past 64 bits. A scan of any
other name is taken to read the number of rows that stands for an unknown one. -/
theorem catalog_as_declared (p : Pipeline) :
    ((∃ store, p.catalog = .ok store) ↔ ∀ d ∈ p.containers,
      (d.kind = .partitionedMap ∨ d.kind = .replicatedMap) ∧
      ¬(d.kind = .partitionedMap ∧ d.partitions = some 0)) ∧
    ∀ store, p.catalog = .ok store →
      (∀ before d after, p.containers = before ++ d :: after →
        (∀ other ∈ after, other.name ≠ d.name) →
        ∃ id c, store.find d.name = .ok id ∧ store.container? id = some c ∧ c.kind = d.kind ∧
          c.rowCount = .ok d.entries ∧
          (d.kind = .partitionedMap → ∃ counts, c.counter = .partitions counts ∧
            counts.size = d.partitions.getD defaultPartitions ∧
            (∀ m ∈ counts, ∀ n ∈ counts, m.toNat ≤ n.toNat + 1) ∧
            (counts.toList.map UInt64.toNat).sum = d.entries.toNat)) ∧
      ∀ name, (∀ d ∈ p.containers, d.name ≠ name) →
        ∀ {ν : Type} [Quantity ν] (settings : Settings ν) (t : Traits) (s : Schema)
          (inputs : List Plan),
          (Estimates.ofStore settings store).scanRows (.node t (.scan name s) inputs) =
            .ok (Quantity.ofNat 1000) := by
  refine ⟨?_, fun store h => ⟨fun before d after hsplit hlast => ?_, fun name hothers => ?_⟩⟩
  · rw [catalog, exists_register_iff]
    exact forall₂_congr fun d _ => ⟨fun h => ⟨h.map, h.partitioned⟩, fun h => ⟨h.1, h.2⟩⟩
  · rw [catalog, hsplit] at h
    obtain ⟨c, hmade, hnamed⟩ := named?_register_of_last Store.sound_empty h hlast
    obtain ⟨id, hid, hc⟩ := Store.find_eq_ok hnamed
    refine ⟨id, c, hid, hc, hmade.kind, hmade.rows, fun hk => ?_⟩
    obtain ⟨hpos, hcounter⟩ := hmade.partitions hk
    have hcounts := Counter.counts_spread hpos d.entries
    exact ⟨_, hcounter, hcounts.size, hcounts.even, hcounts.sum_toNat.trans (Counter.sum_share hpos _)⟩
  · intro ν _ settings t s inputs
    have hnone : store.named? name = none :=
      (named?_register_of_others Store.sound_empty h hothers).trans rfl
    exact Estimates.scanRows_ofStore settings (Store.rowCount?_of_named?_none hnone) t s inputs

/-- Orders are declared twice, at last with more partitions than entries. -/
def ordersTwice : Pipeline where
  overrides := .empty
  containers := [⟨"orders", .partitionedMap, some 4, 10⟩, ⟨"customers", .replicatedMap, none, 3⟩,
    ⟨"orders", .partitionedMap, some 9, 7⟩]
  steps := []

theorem catalog_as_declared_ordersTwice : ∃ store, ordersTwice.catalog = .ok store ∧
    (∃ id c, store.find "orders" = .ok id ∧ store.container? id = some c ∧
      c.rowCount = .ok 7 ∧ ∃ counts, c.counter = .partitions counts ∧ counts.size = 9) ∧
    (Estimates.ofStore (Settings.default : Settings Double) store).scanRows
      (.scan "invoices" ⟨[]⟩) = .ok (Quantity.ofNat 1000) := by
  obtain ⟨hmade, hrows⟩ := catalog_as_declared ordersTwice
  obtain ⟨store, hstore⟩ := hmade.mpr (by simp [ordersTwice])
  obtain ⟨hdeclared, hunknown⟩ := hrows store hstore
  refine ⟨store, hstore, ?_, hunknown "invoices" (by simp [ordersTwice]) _ _ _ []⟩
  obtain ⟨id, c, hid, hc, -, hcount, hpartitions⟩ :=
    hdeclared (ordersTwice.containers.take 2) ⟨"orders", .partitionedMap, some 9, 7⟩ [] rfl (by simp)
  obtain ⟨counts, hcounter, hsize, -, -⟩ := hpartitions rfl
  exact ⟨id, c, hid, hc, hcount, counts, hcounter, hsize⟩

end Pipeline

end FlowPlan
