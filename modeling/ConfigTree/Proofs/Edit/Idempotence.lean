import ConfigTree.Proofs.Edit.Overlay

/-! Merging the same object a second time.  Unless it holds an array or a repeated key, an object
laid over another leaves nothing that it would change again: what it replaced is a copy of its
own. -/

namespace ConfigTree.Node

/-- No key of the tree stands twice or is repeated, and no node is an array. -/
structure Settles (n : Node) : Prop where
  keysDistinct : n.Everywhere KeysDistinct
  noRepeats : n.NoRepeats
  arrayless : n.Free .array

section

variable {n : Node} {o incoming r : Multimap Node}

theorem Settles.inner (h : n.Settles) {m : Node} (hm : m ∈ n.inner) : m.Settles :=
  ⟨h.keysDistinct.inner hm, h.noRepeats.inner hm, h.arrayless.inner hm⟩

theorem Settles.eq_single (h : (object incoming).Settles) {e : String × Member Node}
    (he : e ∈ incoming.entries) : ∃ n, e.2 = .single n ∧ n.Settles := by
  obtain ⟨key, member⟩ := e
  cases member with
  | single n => exact ⟨n, rfl, h.inner (Multimap.mem_values_of_mem he List.mem_cons_self)⟩
  | repeated ns => cases h.noRepeats.here _ he

/-- An overlay that brings no key and changes no member. -/
theorem overlay_eq_self (hkeys : ∀ e ∈ incoming.entries, e.1 ∈ r.keys)
    (hsingle : Unrepeated (object incoming))
    (hmembers : ∀ e ∈ r.entries, overEntries e.1 e.2 incoming.entries = e.2) :
    r.overlay incoming = r := by
  have hnew : newEntries r.keys incoming.entries = [] := by
    rw [newEntries_eq_filter hsingle, List.filter_eq_nil_iff]
    exact fun e he => by simpa using hkeys e he
  have hsame : ∀ e ∈ r.entries, (e.1, overEntries e.1 e.2 incoming.entries) = e :=
    fun e he => Prod.ext rfl (hmembers e he)
  rw [Multimap.overlay, hnew, List.append_nil, List.map_congr_left hsame, List.map_id']

theorem overlay_self (h : (object incoming).Settles)
    (ih : ∀ n ∈ incoming.values, overMember (.single n) n = .single n) :
    incoming.overlay incoming = incoming := by
  refine overlay_eq_self (fun e he => List.mem_map_of_mem he) h.noRepeats.here fun e he => ?_
  obtain ⟨n, hn, -⟩ := h.eq_single he
  obtain ⟨key, _⟩ := e
  cases hn
  rw [overEntries_of_mem h.keysDistinct.here he]
  exact ih n (Multimap.mem_values_of_mem he List.mem_cons_self)

theorem overMember_self (n : Node) (h : n.Settles) : overMember (.single n) n = .single n := by
  induction n using inductInner with
  | step n ih =>
    cases n with
    | object incoming =>
      have hself := overlay_self h fun n hn => ih n hn (h.inner hn)
      rw [overMember_of_objects (Member.first?_single _), hself]
      rfl
    | array items => exact absurd rfl h.arrayless.here
    | _ => rfl

theorem overlay_overlay (h : (object incoming).Settles)
    (ih : ∀ n ∈ incoming.values, ∀ m, overMember (overMember m n) n = overMember m n) :
    (o.overlay incoming).overlay incoming = o.overlay incoming := by
  refine overlay_eq_self (fun e he => ?_) h.noRepeats.here fun e he => ?_
  · have hmem : e.1 ∈ incoming.keys := List.mem_map_of_mem he
    rw [keys_overlay h.noRepeats.here]
    by_cases ho : e.1 ∈ o.keys
    · exact List.mem_append_left _ ho
    · exact List.mem_append_right _ (List.mem_filter.2 ⟨hmem, decide_eq_true ho⟩)
  · rcases List.mem_append.1 he with he | he
    · obtain ⟨⟨key, m⟩, -, rfl⟩ := List.mem_map.1 he
      by_cases hkey : key ∈ incoming.keys
      · obtain ⟨⟨_, _⟩, hmem, rfl⟩ := List.mem_map.1 hkey
        obtain ⟨n, hn, -⟩ := h.eq_single hmem
        cases hn
        simp only
        have hover := fun m => overEntries_of_mem (m := m) h.keysDistinct.here hmem
        rw [hover, hover]
        exact ih n (Multimap.mem_values_of_mem hmem List.mem_cons_self) m
      · simp only
        rw [overEntries_of_not_mem hkey, overEntries_of_not_mem hkey]
    · rw [newEntries_eq_filter h.noRepeats.here] at he
      have hmem := (List.mem_filter.1 he).1
      obtain ⟨n, hn, hsettles⟩ := h.eq_single hmem
      obtain ⟨key, _⟩ := e
      cases hn
      rw [overEntries_of_mem h.keysDistinct.here hmem]
      exact overMember_self n hsettles

theorem overMember_overMember (n : Node) (h : n.Settles) (m : Member Node) :
    overMember (overMember m n) n = overMember m n := by
  induction n using inductInner generalizing m with
  | step n ih =>
    cases n with
    | object incoming =>
      by_cases hm : ∃ o, m.first? = some (object o)
      · obtain ⟨o, ho⟩ := hm
        have htwice : (o.overlay incoming).overlay incoming = o.overlay incoming :=
          overlay_overlay h fun n hn => ih n hn (h.inner hn)
        rw [overMember_of_objects ho, overMember_of_objects (Member.first?_setFirst ..), htwice,
          Member.setFirst_setFirst]
      -- What was replaced is now a copy of the overlay itself.
      · rw [overMember_of_object fun o ho => hm ⟨o, ho⟩]
        exact overMember_self _ h
    | array items => exact absurd rfl h.arrayless.here
    | _ => rfl

end

/-- An object without arrays and repeated keys is merged into an object once and for all. -/
theorem merging_again_changes_nothing (limit : Nat) (d : Char) (path : String) (root : Node)
    (o incoming : Multimap Node) (h : root.lookup? d path = some (object o))
    (ho : (object o).Everywhere KeysDistinct) (hincoming : (object incoming).Settles)
    (hlimit : (object incoming).depth ≤ limit) :
    let after := root.replace (Path.segments d path) (object (o.overlay incoming))
    root.merge limit d path (object incoming) = .done after ∧
      after.merge limit d path (object incoming) = .done after := by
  intro after
  have hafter : after.lookup? d path = some (object (o.overlay incoming)) := lookup?_replace h _
  have hover := keysDistinct_overlay ho hincoming.keysDistinct
  have htwice : (o.overlay incoming).overlay incoming = o.overlay incoming :=
    overlay_overlay hincoming fun n hn => overMember_overMember n (hincoming.inner hn)
  refine ⟨merge_of_objects h ho hincoming.keysDistinct hlimit, ?_⟩
  rw [merge_of_objects hafter hover hincoming.keysDistinct hlimit, htwice]
  exact congrArg Edited.done (replace_self hafter)

/-- The first time, objects take the place of an array, a number and the values of a repeated key;
the second time, they are met by themselves. -/
theorem merging_again_changes_nothing_over_repeats :
    let o : Multimap Node :=
      ⟨[("a", .repeated [.object ⟨[("x", .single (.int 1))]⟩, .int 7]),
        ("b", .single (.array [.int 1])), ("c", .single (.int 1)),
        ("d", .repeated [.null, .object ∅])]⟩
    let incoming : Multimap Node :=
      ⟨[("d", .single (.object ⟨[("y", .single .null)]⟩)), ("c", .single (.object ∅)),
        ("b", .single (.object ∅)), ("e", .single (.str "new")),
        ("a", .single (.object ⟨[("x", .single (.object ∅)), ("y", .single .null)]⟩))]⟩
    let after : Node := .array [.object
      ⟨[("a", .repeated
          [.object ⟨[("x", .single (.object ∅)), ("y", .single .null)]⟩, .int 7]),
        ("b", .single (.object ∅)), ("c", .single (.object ∅)),
        ("d", .single (.object ⟨[("y", .single .null)]⟩)), ("e", .single (.str "new"))]⟩]
    (Node.array [.object o]).merge 3 '.' "0" (.object incoming) = .done after ∧
      after.merge 3 '.' "0" (.object incoming) = .done after := by
  intro o incoming after
  have hsegments : Path.segments '.' "0" = ["0"] := by decide +kernel
  have hold : (Node.array [.object o]).lookup? '.' "0" = some (.object o) := by
    rw [lookup?, hsegments]
    rfl
  have hincoming : (object incoming).Settles :=
    ⟨by decide +kernel, by decide +kernel, by decide +kernel⟩
  have htwice := merging_again_changes_nothing 3 '.' "0" _ o incoming hold (by decide +kernel)
    hincoming (by decide +kernel)
  rw [hsegments] at htwice
  exact htwice

end ConfigTree.Node
