import ConfigTree.Proofs.Edit.Replace
import ConfigTree.Proofs.Edit.Session
import ConfigTree.Proofs.Json.RoundTrip

/-! Merging an object into an object lays it over the other, key by key.  `Multimap.overlay` says
what that leaves with no loop over a changing target: each key of the target looks up what it is
given, and the keys it has not come last. -/

namespace ConfigTree

namespace Node

mutual

/-- What a key holds with a value laid over it.  An object is laid over an object and an array put
behind an array, which leaves the further values of the key; anything else takes the place of
all. -/
def overMember (m : Member Node) : Node → Member Node
  | object ⟨es⟩ => match m.first? with
    | some (object o) => m.setFirst (object
        ⟨o.entries.map (fun e => (e.1, overEntries e.1 e.2 es)) ++ newEntries o.keys es⟩)
    | _ => .single (object ⟨es⟩)
  | array items => match m.first? with
    | some (array old) => m.setFirst (array (old ++ items))
    | _ => .single (array items)
  | n => .single n
termination_by structural n => n

/-- The values of a repeated key are laid over it in turn. -/
def overRepeats (m : Member Node) : List Node → Member Node
  | [] => m
  | n :: ns => overRepeats (overMember m n) ns
termination_by structural ns => ns

/-- What `key` holds with what the entries have under it laid over it. -/
def overEntries (key : String) (m : Member Node) : List (String × Member Node) → Member Node
  | [] => m
  | (k, .single n) :: es => if k = key then overMember m n else overEntries key m es
  | (k, .repeated ns) :: es => if k = key then overRepeats m ns else overEntries key m es
termination_by structural es => es

/-- The entries under other keys than `keys`. -/
def newEntries (keys : List String) :
    List (String × Member Node) → List (String × Member Node)
  | [] => []
  | (k, .single n) :: es =>
    if k ∈ keys then newEntries keys es else (k, .single n) :: newEntries keys es
  | (_, .repeated []) :: es => newEntries keys es
  | (k, .repeated (n :: ns)) :: es =>
    if k ∈ keys then newEntries keys es
    else (k, overRepeats (.single n) ns) :: newEntries keys es
termination_by structural es => es

end

end Node

/-- An object with another laid over it: its own keys, and behind them the new ones. -/
def Multimap.overlay (o incoming : Multimap Node) : Multimap Node :=
  ⟨o.entries.map (fun e => (e.1, Node.overEntries e.1 e.2 incoming.entries)) ++
    Node.newEntries o.keys incoming.entries⟩

namespace Node

section

variable {key : String} {m : Member Node} {e : String × Member Node}
  {es : List (String × Member Node)} {o incoming : Multimap Node} {items : List Node}

theorem overMember_of_objects (h : m.first? = some (object o)) :
    overMember m (object incoming) = m.setFirst (object (o.overlay incoming)) := by
  obtain ⟨es⟩ := incoming
  rw [overMember, h]
  rfl

theorem overMember_of_object (h : ∀ o, m.first? ≠ some (object o)) :
    overMember m (object incoming) = .single (object incoming) := by
  obtain ⟨es⟩ := incoming
  rw [overMember]
  split
  · next o ho => exact absurd ho (h o)
  · rfl

theorem overMember_of_array (h : ∀ old, m.first? ≠ some (array old)) :
    overMember m (array items) = .single (array items) := by
  rw [overMember]
  split
  · next old ho => exact absurd ho (h old)
  · rfl

theorem overEntries_cons_of_ne (h : e.1 ≠ key) :
    overEntries key m (e :: es) = overEntries key m es := by
  obtain ⟨k, n | ns⟩ := e <;> exact if_neg h

theorem overEntries_of_not_mem (h : key ∉ es.map Prod.fst) : overEntries key m es = m := by
  induction es with
  | nil => rfl
  | cons e es ih =>
    rw [List.map_cons, List.mem_cons, not_or] at h
    rw [overEntries_cons_of_ne (Ne.symm h.1), ih h.2]

theorem newEntries_concat {keys : List String} (h : key ∉ es.map Prod.fst) :
    newEntries (keys ++ [key]) es = newEntries keys es := by
  induction es with
  | nil => rfl
  | cons e es ih =>
    obtain ⟨k, member⟩ := e
    rw [List.map_cons, List.mem_cons, not_or] at h
    have hkey : k ∈ keys ++ [key] ↔ k ∈ keys := by simp [Ne.symm h.1]
    cases member with
    | single n => simp only [newEntries, hkey, ih h.2]
    | repeated ns =>
      cases ns with
      | nil => simp only [newEntries, ih h.2]
      | cons n ns => simp only [newEntries, hkey, ih h.2]

/-- The first entry may be laid over an object before the others. -/
theorem overlay_cons {o : Multimap Node} {change : Member Node → Member Node}
    {fresh : Member Node} (ho : o.KeysDistinct) (hnew : e.1 ∉ es.map Prod.fst)
    (hchange : ∀ m, overEntries e.1 m (e :: es) = change m)
    (hfresh : ∀ keys, newEntries keys (e :: es) =
      if e.1 ∈ keys then newEntries keys es else (e.1, fresh) :: newEntries keys es) :
    (Multimap.mk (Multimap.upsert change fresh e.1 o.entries)).overlay ⟨es⟩ =
      o.overlay ⟨e :: es⟩ := by
  refine congrArg Multimap.mk ?_
  simp only [Multimap.keys]
  rw [Multimap.map_fst_upsert, Multimap.upsert_eq, hfresh]
  by_cases hmem : e.1 ∈ o.entries.map Prod.fst
  · rw [if_pos hmem, if_pos hmem, if_pos hmem, Multimap.adjust_eq_map ho, List.map_map]
    refine congrArg (· ++ _) (List.map_congr_left fun x _ => Prod.ext rfl ?_)
    by_cases hx : x.1 = e.1
    · simp only [Function.comp_apply, if_pos hx]
      rw [hx, hchange, overEntries_of_not_mem hnew]
    · simp only [Function.comp_apply, if_neg hx]
      rw [overEntries_cons_of_ne (Ne.symm hx)]
  · rw [if_neg hmem, if_neg hmem, if_neg hmem, newEntries_concat hnew, List.map_append,
      List.append_assoc]
    refine congrArg₂ (· ++ ·) (List.map_congr_left fun x hx => Prod.ext rfl ?_) ?_
    · have hne : e.1 ≠ x.1 := fun he => hmem (he ▸ List.mem_map_of_mem hx)
      exact (overEntries_cons_of_ne hne).symm
    · rw [List.map_singleton, overEntries_of_not_mem hnew, List.singleton_append]

/-- A key without a value says nothing. -/
theorem overlay_cons_nil {o : Multimap Node} (hnew : key ∉ es.map Prod.fst) :
    o.overlay ⟨es⟩ = o.overlay ⟨(key, .repeated []) :: es⟩ := by
  refine congrArg Multimap.mk (congrArg (· ++ _) (List.map_congr_left fun x _ => ?_))
  refine Prod.ext rfl ?_
  by_cases hx : key = x.1
  · rw [hx] at hnew
    simp only [overEntries, if_pos hx, overRepeats, overEntries_of_not_mem hnew]
  · exact (overEntries_cons_of_ne hx).symm

end

/-! ## Merging objects -/

section

variable {limit : Nat}

theorem insert_eq_upsert {target : Multimap Node} {key : String} {n : Node}
    (h : ∀ m, target.member? key = some m → overMember m n = .single n) :
    target.insert key n =
      ⟨Multimap.upsert (overMember · n) (.single n) key target.entries⟩ :=
  congrArg Multimap.mk (Multimap.upsert_congr _ fun m hm => (h m hm).symm)

theorem setFirst_eq_upsert {target : Multimap Node} {key : String} {n old new : Node}
    (hold : target.get? key = some old)
    (h : ∀ m : Member Node, m.first? = some old → overMember m n = m.setFirst new) :
    target.setFirst key new =
      ⟨Multimap.upsert (overMember · n) (.single n) key target.entries⟩ := by
  obtain ⟨member, hmember, hfirst⟩ := Option.bind_eq_some_iff.1 hold
  have hkey : key ∈ target.entries.map Prod.fst := Multimap.mem_keys_of_get? hold
  rw [Multimap.setFirst, Multimap.modify, Multimap.upsert_eq, if_pos hkey]
  refine congrArg Multimap.mk (Multimap.adjust_congr fun m hm => ?_)
  cases Option.some.inj (hmember.symm.trans hm)
  exact (h member hfirst).symm

theorem keysDistinct_of_mergeUnder {depth : Nat} {key : String} {target after : Multimap Node}
    {n : Node} (ht : (object target).Everywhere KeysDistinct) (hn : n.Everywhere KeysDistinct)
    (h : mergeUnder limit depth key target n = .done after) :
    (object after).Everywhere KeysDistinct := by
  have hvalue : after = (mergeUnder limit depth key target n).value := by rw [h]; rfl
  rw [hvalue]
  exact ht.mergeUnder lasting_keysDistinct n hn

theorem keysDistinct_of_mergeRepeats {depth : Nat} {key : String} {target after : Multimap Node}
    {ns : List Node} (ht : (object target).Everywhere KeysDistinct)
    (hns : ∀ n ∈ ns, n.Everywhere KeysDistinct)
    (h : mergeRepeats limit depth key target ns = .done after) :
    (object after).Everywhere KeysDistinct := by
  have hvalue : after = (mergeRepeats limit depth key target ns).value := by rw [h]; rfl
  rw [hvalue]
  exact ht.mergeRepeats lasting_keysDistinct ns hns

theorem everywhere_keysDistinct_cons {e : String × Member Node} {es : List (String × Member Node)}
    (h : (object ⟨e :: es⟩).Everywhere KeysDistinct) :
    e.1 ∉ es.map Prod.fst ∧ (∀ n ∈ e.2.values, n.Everywhere KeysDistinct) ∧
      (object ⟨es⟩).Everywhere KeysDistinct := by
  obtain ⟨hnew, hrest⟩ := List.nodup_cons.1 h.here
  have hinner : ∀ n ∈ e.2.values ++ (Multimap.mk es).values, n.Everywhere KeysDistinct :=
    fun n hn => h.inner hn
  exact ⟨hnew, fun n hn => hinner n (List.mem_append_left _ hn),
    .intro hrest fun n hn => hinner n (List.mem_append_right _ hn)⟩

mutual

theorem mergeUnder_eq {depth : Nat} (key : String) {target : Multimap Node}
    (ht : (object target).Everywhere KeysDistinct) : (n : Node) → n.Everywhere KeysDistinct →
      depth + n.depth ≤ limit → mergeUnder limit depth key target n =
        .done ⟨Multimap.upsert (overMember · n) (.single n) key target.entries⟩
  | object ⟨incoming⟩, hn, hlimit => by
    simp only [Node.depth] at hlimit
    rw [mergeUnder]
    split
    · next o ho =>
      have hinner : (object o).Everywhere KeysDistinct := ht.inner (Multimap.mem_values_of_get? ho)
      rw [if_neg (by omega), mergeMembers_eq hinner incoming hn (by omega)]
      exact congrArg Edited.done (setFirst_eq_upsert ho fun m hm => overMember_of_objects hm)
    · next hother =>
      refine congrArg Edited.done (insert_eq_upsert fun m hm => overMember_of_object fun o ho => ?_)
      exact hother o (Option.bind_eq_some_iff.2 ⟨m, hm, ho⟩)
  | array items, _, _ => by
    rw [mergeUnder]
    split
    · next old ho =>
      exact congrArg Edited.done (setFirst_eq_upsert ho fun m hm => by rw [overMember, hm])
    · next hother =>
      refine congrArg Edited.done
        (insert_eq_upsert fun m hm => overMember_of_array fun old ho => ?_)
      exact hother old (Option.bind_eq_some_iff.2 ⟨m, hm, ho⟩)
  | null, _, _ | bool _, _, _ | int _, _, _ | float _, _, _ | str _, _, _ | time _, _, _
  | userdata _, _, _ => congrArg Edited.done (insert_eq_upsert fun _ _ => rfl)
termination_by structural n => n

theorem mergeRepeats_eq {depth : Nat} {key : String} {change : Member Node → Member Node}
    {fresh : Member Node} {es : List (String × Member Node)}
    (ht : (object ⟨Multimap.upsert change fresh key es⟩).Everywhere KeysDistinct) :
    (ns : List Node) → (∀ n ∈ ns, n.Everywhere KeysDistinct) → depth + depthItems ns ≤ limit →
      mergeRepeats limit depth key ⟨Multimap.upsert change fresh key es⟩ ns =
        .done ⟨Multimap.upsert (fun m => overRepeats (change m) ns) (overRepeats fresh ns) key es⟩
  | [], _, _ => rfl
  | n :: ns, hn, hlimit => by
    rw [depthItems] at hlimit
    have hdepth : depth + n.depth ≤ limit := by omega
    have heq := mergeUnder_eq key ht n (hn n List.mem_cons_self) hdepth
    rw [Multimap.upsert_upsert_self] at heq
    rw [mergeRepeats, heq, Edited.andThen_done]
    exact mergeRepeats_eq (keysDistinct_of_mergeUnder ht (hn n List.mem_cons_self) heq) ns
      (fun m hm => hn m (List.mem_cons_of_mem _ hm)) (by omega)
termination_by structural ns => ns

theorem mergeMembers_eq {depth : Nat} {target : Multimap Node}
    (ht : (object target).Everywhere KeysDistinct) : (es : List (String × Member Node)) →
      (object ⟨es⟩).Everywhere KeysDistinct → depth + depthEntries es ≤ limit →
        mergeMembers limit depth target es = .done (target.overlay ⟨es⟩)
  | [], _, _ => by
    rw [mergeMembers, Multimap.overlay]
    simp [overEntries, newEntries]
  | (key, .single n) :: es, hes, hlimit => by
    rw [depthEntries] at hlimit
    obtain ⟨hnew, hn, hrest⟩ := everywhere_keysDistinct_cons hes
    have hn : n.Everywhere KeysDistinct := hn n List.mem_cons_self
    have hdepth : depth + n.depth ≤ limit := by omega
    have heq := mergeUnder_eq key ht n hn hdepth
    rw [mergeMembers, heq, Edited.andThen_done,
      mergeMembers_eq (keysDistinct_of_mergeUnder ht hn heq) es hrest (by omega)]
    exact congrArg Edited.done (overlay_cons ht.here hnew (fun _ => if_pos rfl) fun _ => rfl)
  | (key, .repeated []) :: es, hes, hlimit => by
    obtain ⟨hnew, -, hrest⟩ := everywhere_keysDistinct_cons hes
    rw [depthEntries, depthItems, Nat.zero_max] at hlimit
    rw [mergeMembers, mergeRepeats, Edited.andThen_done, mergeMembers_eq ht es hrest hlimit]
    exact congrArg Edited.done (overlay_cons_nil hnew)
  | (key, .repeated (n :: ns)) :: es, hes, hlimit => by
    rw [depthEntries, depthItems] at hlimit
    obtain ⟨hnew, hns, hrest⟩ := everywhere_keysDistinct_cons hes
    have hn : n.Everywhere KeysDistinct := hns n List.mem_cons_self
    have hdepth : depth + n.depth ≤ limit := by omega
    have heq := mergeUnder_eq key ht n hn hdepth
    have hafter := keysDistinct_of_mergeUnder ht hn heq
    have hrestNs : ∀ m ∈ ns, m.Everywhere KeysDistinct :=
      fun m hm => hns m (List.mem_cons_of_mem _ hm)
    have hdepths : depth + depthItems ns ≤ limit := by omega
    have heqs := mergeRepeats_eq hafter ns hrestNs hdepths
    have hafters := keysDistinct_of_mergeRepeats hafter hrestNs heqs
    rw [mergeMembers, mergeRepeats, heq, Edited.andThen_done, heqs, Edited.andThen_done,
      mergeMembers_eq hafters es hrest (by omega)]
    exact congrArg Edited.done (overlay_cons ht.here hnew (fun _ => if_pos rfl) fun _ => rfl)
termination_by structural es => es

end

theorem mergeObjects_eq {o incoming : Multimap Node} (ho : (object o).Everywhere KeysDistinct)
    (hincoming : (object incoming).Everywhere KeysDistinct)
    (hlimit : (object incoming).depth ≤ limit) :
    mergeObjects limit 1 o incoming = .done (o.overlay incoming) := by
  obtain ⟨es⟩ := incoming
  rw [Node.depth] at hlimit
  rw [mergeObjects, if_neg (by omega)]
  exact mergeMembers_eq ho es hincoming hlimit

theorem keysDistinct_overlay {o incoming : Multimap Node}
    (ho : (object o).Everywhere KeysDistinct)
    (hincoming : (object incoming).Everywhere KeysDistinct) :
    (object (o.overlay incoming)).Everywhere KeysDistinct := by
  obtain ⟨es⟩ := incoming
  have hmerge : mergeMembers (depthEntries es) 0 o es = .done (o.overlay ⟨es⟩) :=
    mergeMembers_eq ho es hincoming (Nat.le_of_eq (Nat.zero_add _))
  have hvalue : o.overlay ⟨es⟩ = (mergeMembers (depthEntries es) 0 o es).value := by
    rw [hmerge]
    rfl
  rw [hvalue]
  exact ho.mergeMembers lasting_keysDistinct es fun e he n hn =>
    hincoming.inner (Multimap.mem_values_of_mem he hn)

end

/-! ## What an overlay holds -/

section

variable {key : String} {keys : List String} {m : Member Node} {n : Node}
  {es : List (String × Member Node)} {o incoming : Multimap Node}

theorem overEntries_of_mem (hes : (es.map Prod.fst).Nodup) (h : (key, .single n) ∈ es) :
    overEntries key m es = overMember m n := by
  induction es with
  | nil => cases h
  | cons e es ih =>
    obtain ⟨hnew, hrest⟩ := List.nodup_cons.1 hes
    rcases List.mem_cons.1 h with rfl | h
    · exact if_pos rfl
    · have hne : e.1 ≠ key := fun he => hnew (he ▸ List.mem_map_of_mem h)
      rw [overEntries_cons_of_ne hne, ih hrest h]

theorem newEntries_eq_filter (h : ∀ e ∈ es, e.2.isRepeated = false) :
    newEntries keys es = es.filter (·.1 ∉ keys) := by
  induction es with
  | nil => rfl
  | cons e es ih =>
    obtain ⟨k, n | ns⟩ := e
    · have ih := ih fun e he => h e (List.mem_cons_of_mem _ he)
      by_cases hk : k ∈ keys <;> simp [newEntries, hk, ih]
    · cases h _ List.mem_cons_self

theorem member?_overlay (o incoming : Multimap Node) (key : String) :
    (o.overlay incoming).member? key =
      ((o.member? key).map (overEntries key · incoming.entries)).or
        ((newEntries o.keys incoming.entries).lookup key) := by
  rw [Multimap.member?, Multimap.overlay, List.lookup_append,
    Multimap.lookup_map (fun key m => overEntries key m incoming.entries)]
  rfl

theorem keys_overlay (h : Unrepeated (object incoming)) (o : Multimap Node) :
    (o.overlay incoming).keys = o.keys ++ incoming.keys.filter (· ∉ o.keys) := by
  rw [Multimap.keys, Multimap.overlay, newEntries_eq_filter h, List.map_append, List.map_map,
    Multimap.keys, Multimap.keys, List.filter_map]
  rfl

theorem mem_of_get?_eq_some (h : Unrepeated (object incoming)) (hn : incoming.get? key = some n) :
    (key, .single n) ∈ incoming.entries := by
  obtain ⟨member, hmember, hfirst⟩ := Option.bind_eq_some_iff.1 hn
  have hmem := Multimap.mem_of_member?_eq_some hmember
  cases member with
  | single a =>
    cases hfirst
    exact hmem
  | repeated as => cases h _ hmem

end

/-- `r` is `incoming` laid over `o`.  The keys of `o` stand first; a key that only one of them has
keeps what it holds; and where both have one, objects are laid over each other and arrays put one
behind the other in the place of the first value, and anything else leaves the new value alone. -/
structure IsOverlay (o incoming r : Multimap Node) : Prop where
  keys : r.keys = o.keys ++ incoming.keys.filter (· ∉ o.keys)
  kept : ∀ key ∉ incoming.keys, r.member? key = o.member? key
  added : ∀ (key : String) (n : Node), key ∉ o.keys → incoming.get? key = some n →
    r.member? key = some (.single n)
  met : ∀ (key : String) (m : Member Node) (old n : Node), o.member? key = some m →
    m.first? = some old → incoming.get? key = some n →
      r.member? key = some (match old, n with
        | object old, object n => m.setFirst (object (old.overlay n))
        | array old, array items => m.setFirst (array (old ++ items))
        | _, n => .single n)

theorem isOverlay_overlay {o incoming : Multimap Node} (hkeys : incoming.KeysDistinct)
    (hincoming : Unrepeated (object incoming)) : IsOverlay o incoming (o.overlay incoming) where
  keys := keys_overlay hincoming o
  kept key h := by
    have hnone : (newEntries o.keys incoming.entries).lookup key = none := by
      rw [Multimap.lookup_eq_none_iff, newEntries_eq_filter hincoming]
      exact fun hmem => h (((List.filter_sublist).map Prod.fst).subset hmem)
    have hself : (fun m => overEntries key m incoming.entries) = id :=
      funext fun m => overEntries_of_not_mem h
    rw [member?_overlay, hnone, Option.or_none, hself, Option.map_id, id]
  added key n h hn := by
    have hnone : o.member? key = none := Multimap.lookup_eq_none_iff.2 h
    have hmem : (key, .single n) ∈ newEntries o.keys incoming.entries := by
      rw [newEntries_eq_filter hincoming]
      exact List.mem_filter.2 ⟨mem_of_get?_eq_some hincoming hn, decide_eq_true h⟩
    have hnodup : ((newEntries o.keys incoming.entries).map Prod.fst).Nodup := by
      rw [newEntries_eq_filter hincoming]
      exact List.Nodup.sublist ((List.filter_sublist).map Prod.fst) hkeys
    rw [member?_overlay, hnone, Option.map_none, Option.none_or]
    exact Multimap.lookup_eq_some_of_mem hnodup hmem
  met key m old n hm hold hn := by
    rw [member?_overlay, hm, Option.map_some, Option.some_or,
      overEntries_of_mem hkeys (mem_of_get?_eq_some hincoming hn)]
    refine congrArg some ?_
    split
    · exact overMember_of_objects hold
    · rw [overMember, hold]
    · next hobjects harrays =>
      cases n with
      | object n =>
        refine overMember_of_object fun o ho => ?_
        exact hobjects o n (Option.some.inj (hold.symm.trans ho)) rfl
      | array items =>
        refine overMember_of_array fun old' ho => ?_
        exact harrays old' items (Option.some.inj (hold.symm.trans ho)) rfl
      | _ => rfl

/-! ## Merging an object into an object -/

section

variable {limit : Nat} {d : Char} {path : String} {root : Node} {o incoming : Multimap Node}

theorem merge_of_objects (h : root.lookup? d path = some (object o))
    (ho : (object o).Everywhere KeysDistinct)
    (hincoming : (object incoming).Everywhere KeysDistinct)
    (hlimit : (object incoming).depth ≤ limit) :
    root.merge limit d path (object incoming) =
      .done (root.replace (Path.segments d path) (object (o.overlay incoming))) := by
  refine merge_of_combine h ?_
  rw [combine, mergeObjects_eq ho hincoming hlimit]
  rfl

end

/-- An object that is merged into an object is laid over it, key by key; and so is one that is given
as text, in which no key is repeated. -/
theorem objects_merge_key_by_key :
    (∀ (limit : Nat) (d : Char) (path : String) (root : Node) (o incoming : Multimap Node),
      root.lookup? d path = some (object o) → (object o).Everywhere KeysDistinct →
      (object incoming).Everywhere KeysDistinct → (object incoming).NoRepeats →
      (object incoming).depth ≤ limit →
        root.merge limit d path (object incoming) =
            .done (root.replace (Path.segments d path) (object (o.overlay incoming))) ∧
          IsOverlay o incoming (o.overlay incoming)) ∧
    ∀ (document : Document) (d : Char) (path text : String) (options : ReadOptions)
        (o incoming : Multimap Node),
      document.root.lookup? d path = some (object o) → (object o).Everywhere KeysDistinct →
      Inline.parse text { options with keepRepeats := false } = .ok (object incoming) →
        document.mergeText d path text options =
            .done { document with
              root := document.root.replace (Path.segments d path)
                (object (o.overlay incoming)) } ∧
          IsOverlay o incoming (o.overlay incoming) := by
  refine ⟨fun limit d path root o incoming h ho hincoming hrepeats hlimit => ⟨?_, ?_⟩,
    fun document d path text options o incoming h ho hread => ?_⟩
  · exact merge_of_objects h ho hincoming hlimit
  · exact isOverlay_overlay hincoming.here hrepeats.here
  · have hincoming := (Inline.isRead_of_parse hread).wellFormed.keysDistinct
    have hrepeats := Inline.noRepeats_of_parse rfl hread
    have hlimit := Inline.depth_le_of_parse hread
    refine ⟨?_, isOverlay_overlay hincoming.here hrepeats.here⟩
    simp only [Document.mergeText, Document.editWith, hread,
      merge_of_objects h ho hincoming hlimit]
    rfl

/-- Of the first value under `a` an object is kept and given a key, the array under `b` grows, the
values under `c` give way, and `d` comes last. -/
theorem objects_merge_key_by_key_in_array :
    let o : Multimap Node :=
      ⟨[("a", .repeated [.object ⟨[("x", .single (.int 1))]⟩, .int 7]),
        ("b", .single (.array [.int 1])), ("c", .repeated [.int 1, .int 2])]⟩
    let incoming : Multimap Node :=
      ⟨[("d", .single .null), ("c", .single (.array [])), ("b", .single (.array [.int 2])),
        ("a", .single (.object ⟨[("y", .single (.bool true))]⟩))]⟩
    let merged : Multimap Node :=
      ⟨[("a", .repeated
          [.object ⟨[("x", .single (.int 1)), ("y", .single (.bool true))]⟩, .int 7]),
        ("b", .single (.array [.int 1, .int 2])), ("c", .single (.array [])),
        ("d", .single .null)]⟩
    ((Node.array [.object o]).merge 2 '.' "0" (.object incoming) =
        .done (.array [.object merged]) ∧ IsOverlay o incoming merged) ∧
      Document.mergeText ⟨.array [.object o], .json⟩ '.' "0"
          (Json.print (Node.object incoming).toValue) default =
        .done ⟨.array [.object merged], .json⟩ := by
  intro o incoming merged
  have hsegments : Path.segments '.' "0" = ["0"] := by decide +kernel
  have hold : (Node.array [.object o]).lookup? '.' "0" = some (.object o) := by
    rw [lookup?, hsegments]
    rfl
  have ho : (object o).Everywhere KeysDistinct := by decide +kernel
  have hincoming : (object incoming).Everywhere KeysDistinct := by decide +kernel
  have hprintable : (object incoming).Printable :=
    ⟨hincoming, by decide +kernel, by decide +kernel, by decide +kernel⟩
  have hread : Inline.parse (Json.print (Node.object incoming).toValue)
      { (default : ReadOptions) with keepRepeats := false } = .ok (object incoming) :=
    by rw [hprintable.inlineParse_print rfl]; rfl
  have hreplace : (Node.array [.object o]).replace (Path.segments '.' "0")
      (object (o.overlay incoming)) = .array [.object merged] := by
    rw [hsegments]
    rfl
  obtain ⟨hmerge, htext⟩ := objects_merge_key_by_key
  have hdone := hmerge 2 '.' "0" _ o incoming hold ho hincoming (by decide +kernel)
    (by decide +kernel)
  rw [hreplace] at hdone
  have htextDone := htext ⟨.array [.object o], .json⟩ '.' "0" _ default o incoming hold ho hread
  rw [hreplace] at htextDone
  exact ⟨hdone, htextDone.1⟩

end Node

end ConfigTree
