import ConfigTree.Proofs.Query.Limit
import ConfigTree.Proofs.Query.Simulation

/-! A sub-path goes on where the path of a request ends.  A longer path leads to the same node under
the same display path, but the sub-path takes one level of depth, so that the rest of the chain comes
to the same events one level deeper. -/

namespace ConfigTree

namespace Path

variable {d : Char} {path text sub : String}

/-- The path is one delimiter and then a text that has something in it, and no delimiter at either
end. -/
structure Led (d : Char) (path text : String) : Prop where
  eq : path = String.singleton d ++ text
  nonempty : text ≠ ""
  head : text.toList.head? ≠ some d
  last : text.toList.getLast? ≠ some d

theorem segments_append (h : sub.toList.head? = some d) (path : String) :
    segments d (path ++ sub) = segments d path ++ segments d sub := by
  rw [segments_eq_map_pieces, String.toList_append, pieces_append_of_head? h, List.map_append]
  rfl

theorem Led.toList_eq (h : Led d path text) : path.toList = d :: text.toList := by
  rw [h.eq, String.toList_append, String.toList_singleton, List.singleton_append]

theorem Led.normalize_eq (h : Led d path text) : normalize d path = text := by
  rw [normalize, h.toList_eq, dropLeading, if_pos rfl, dropTrailing_of_getLast?_ne h.last,
    String.ofList_toList]

theorem Led.normalize_append (h : Led d path text) (hhead : sub.toList.head? = some d)
    (hsub : ∃ c ∈ sub.toList, c ≠ d) :
    normalize d (path ++ sub) = join d text (normalize d sub) := by
  obtain ⟨s, hs⟩ := List.head?_eq_some_iff.1 hhead
  have hs' : ∃ c ∈ s, c ≠ d := by simpa [hs] using hsub
  have hlong : normalize d (path ++ sub) = String.ofList (text.toList ++ d :: dropTrailing d s) := by
    rw [normalize, String.toList_append, h.toList_eq, hs, List.cons_append, dropLeading, if_pos rfl,
      List.append_cons, dropTrailing_append hs', ← List.append_cons]
  have hshort : normalize d sub = String.ofList (dropTrailing d s) := by
    rw [normalize, hs, dropLeading, if_pos rfl]
  rw [hlong, hshort, join, if_neg (mt String.isEmpty_iff.1 h.nonempty), ← String.toList_inj]
  simp

end Path

theorem Node.lookup?_append {d : Char} {sub : String} (h : sub.toList.head? = some d)
    (path : String) (root : Node) :
    root.lookup? d (path ++ sub) = (root.lookup? d path).bind (lookup? d sub) := by
  rw [lookup?, Path.segments_append h, follow?_append]
  rfl

namespace Query

variable {d : Char} {expand : Bool} {limit : Nat}

/-! ## One level deeper -/

def Place.deeper (p : Place) : Place := { p with depth := p.depth + 1 }

def Event.deeper : Event → Event
  | depth k => depth (k + 1)
  | e => e

theorem Event.record?_deeper (e : Event) : e.deeper.record? = e.record? := by
  cases e <;> rfl

theorem Event.isWithin_of_deeper {e : Event} (h : e.deeper.isWithin limit = true) :
    e.isWithin limit = true := by
  cases e with
  | depth k => exact decide_eq_true (Nat.le_of_succ_le (of_decide_eq_true h))
  | _ => rfl

/-- What is on the way at a place, one level deeper. -/
abbrev Stop.Deepens : Stop → Stop → Prop := Related (·.deeper = ·) (·.deeper = ·)

theorem preorder_deeper (path : String) (depth : Nat) (n : Node) :
    List.Forall₂ Stop.Deepens (preorder d expand path depth n)
      (preorder d expand path (depth + 1) n) := by
  induction n using Node.inductInner generalizing path depth with
  | step n ih =>
    have hplace (m : Node) (q : String) (k : Nat) : List.Forall₂ Stop.Deepens
        [.place ⟨some m, q, k⟩ q ""] [.place ⟨some m, q, k + 1⟩ q ""] :=
      .cons (.place rfl rfl) .nil
    have hasides : List.Forall₂ Stop.Deepens ((asides expand path n).map .event)
        ((asides expand path n).map .event) := by
      refine forall₂_map fun e he => .event ?_
      obtain ⟨m, key, rfl⟩ := exists_of_mem_asides he
      rfl
    have hchildren : List.Forall₂ (fun c c' => c ∈ n.children ∧ c = c') n.children n.children :=
      List.forall₂_same.2 fun c hc => ⟨hc, rfl⟩
    rw [preorder_eq, preorder_eq d expand path (depth + 1)]
    refine List.rel_append (List.rel_append (.cons (.event rfl) ?_) hasides)
      (List.rel_flatMap hchildren ?_)
    · split
      · exact .nil
      · exact hplace n path depth
    · rintro c _ ⟨hc, rfl⟩
      simp only
      split
      · exact ih c.2 (Node.mem_inner_of_mem_children hc) _ _
      · exact hplace c.2 _ _

theorem reports_deeper (p : Place) (command : Command) :
    List.Forall₂ (·.deeper = ·) (reports d p command) (reports d p.deeper command) := by
  cases command with
  | length | type | dump => exact .cons rfl .nil
  | keys | values => exact forall₂_map fun _ _ => rfl
  | _ => exact .nil

theorem stops_deeper (p : Place) (command : Command) :
    List.Forall₂ Stop.Deepens (stops d expand p command) (stops d expand p.deeper command) := by
  cases command with
  | each | iterate | select paths => exact forall₂_map fun _ _ => .place rfl rfl
  | recurse =>
    obtain ⟨node, path, depth⟩ := p
    cases node with
    | none => exact .nil
    | some n => exact preorder_deeper path depth n
  | _ => exact .nil

theorem simulation_deeper :
    Simulation d expand (·.deeper = ·) (· = ·) (·.deeper = ·) where
  leadsOn := congrArg Command.leadsOn
  depth hp := hp ▸ rfl
  reports hc hp := hc ▸ hp ▸ reports_deeper _ _
  stops hc hp := hc ▸ hp ▸ stops_deeper _ _

theorem events_deeper (chain : List Command) (p : Place) :
    events d expand chain p.deeper = (events d expand chain p).map Event.deeper := by
  have hevents : List.Forall₂ (·.deeper = ·) (events d expand chain p)
      (events d expand chain p.deeper) :=
    simulation_deeper.events (List.forall₂_same.2 fun _ _ => rfl) rfl
  have hmap := List.forall₂_map_left_iff.2 hevents
  rw [List.forall₂_eq_eq_eq] at hmap
  exact hmap.symm

/-- Events that do not reach the limit are the same for being one level deeper. -/
theorem perform_deeper {es : List Event}
    (h : (perform limit (es.map Event.deeper)).result ≠ .error (.tooDeep limit)) :
    perform limit (es.map Event.deeper) = perform limit es := by
  have hdeeper := isWithin_of_ne_tooDeep h
  have hwithin : ∀ e ∈ es, e.isWithin limit = true :=
    fun e he => Event.isWithin_of_deeper (hdeeper _ (List.mem_map_of_mem he))
  rw [perform_of_isWithin hdeeper, perform_of_isWithin hwithin, List.filterMap_map]
  congr 2
  funext e
  exact e.record?_deeper

theorem perform_depth_zero (es : List Event) :
    perform limit (.depth 0 :: es) = perform limit es := by
  have hwithin : (Event.depth 0).isWithin limit = true := decide_eq_true (Nat.zero_le limit)
  rw [perform, perform, List.takeWhile_cons_of_pos hwithin, List.filterMap_cons_none rfl,
    List.all_cons, hwithin, Bool.true_and]

/-! ## A sub-path after a path -/

variable {o : Options} {path text sub : String}

theorem label_subPath (hpath : Path.Led o.inputDelimiter path text) (sub : String) :
    o.label text sub = o.label "" (path ++ sub) := by
  have hhead : (text.toList ++ sub.toList).head? ≠ some o.inputDelimiter := by
    rw [List.head?_append_of_ne_nil _ (mt String.toList_eq_nil_iff.1 hpath.nonempty)]
    exact hpath.head
  rw [Options.label, Options.label, Path.dropLeading_of_head?_ne hhead, String.toList_append,
    hpath.toList_eq, String.toList_empty, List.nil_append, List.cons_append, Path.dropLeading,
    if_pos rfl]

/-- The only stop of a sub-path is where the longer path leads, one level deeper. -/
theorem requestEvents_subPath (hpath : Path.Led d path text) (hhead : sub.toList.head? = some d)
    (hsub : ∃ c ∈ sub.toList, c ≠ d) (root : Node) (chain : List Command) :
    let p : Place := ⟨root.lookup? d (path ++ sub), Path.normalize d (path ++ sub), 0⟩
    requestEvents d expand root ⟨path, .select [sub] :: chain⟩ =
      .depth 0 :: Stop.events chain (events d expand chain) (.place p.deeper text sub) := by
  intro p
  have hplace : p.deeper = ⟨(root.lookup? d path).bind (Node.lookup? d sub),
      Path.join d text (Path.normalize d sub), 1⟩ := by
    rw [← hpath.normalize_append hhead hsub, ← Node.lookup?_append hhead]
    rfl
  have hleads : (Command.select [sub]).leadsOn = true := rfl
  rw [hplace, requestEvents, List.isEmpty_cons, if_neg Bool.false_ne_true, hpath.normalize_eq, events,
    if_pos hleads, stops, List.map_singleton, List.flatMap_singleton]

/-- A sub-path after a path is the longer path, but for the level of depth it takes. -/
theorem subPath_continues_path (hpath : Path.Led o.inputDelimiter path text)
    (hhead : sub.toList.head? = some o.inputDelimiter)
    (hsub : ∃ c ∈ sub.toList, c ≠ o.inputDelimiter) (root : Node) (chain : List Command) :
    let selected := run o root ⟨path, .select [sub] :: chain⟩
    let longer := run o root ⟨path ++ sub, chain⟩
    selected.result ≠ .error (.tooDeep o.maxDepth) → Alike o selected longer := by
  intro selected longer hresult
  have hselected : selected = _ := (run_eq_perform o root _).trans
    (congrArg (perform o.maxDepth) (requestEvents_subPath hpath hhead hsub root chain))
  have hlonger : longer = _ := run_eq_perform o root _
  rw [hselected, perform_depth_zero] at hresult ⊢
  rw [hlonger]
  cases chain with
  | nil =>
    -- The same node is put out; what differs is where its label is cut into display path and key.
    have hlabel : o.labelText text sub = o.labelText "" (path ++ sub) := by
      rw [Options.labelText, Options.labelText, label_subPath hpath]
    exact alike_perform (.cons (alike_node hlabel _) .nil) o.maxDepth
  | cons command rest =>
    rw [Stop.events, List.isEmpty_cons, if_neg Bool.false_ne_true, events_deeper] at hresult ⊢
    rw [perform_deeper hresult]
    exact .refl _

/-- A walk behind a sub-path with empty segments, under the least limit that has room for it. -/
theorem subPath_continues_path_at_walk :
    let root : Node := .object ⟨[("a", .single (.array [.object ⟨[("b", .single (.int 1))]⟩]))]⟩
    let o : Options := { (default : Options) with showKeys := true, maxDepth := 2 }
    let selected := run o root ⟨".a", [.select ["..0."], .recurse, .type]⟩
    let longer := run o root ⟨".a" ++ "..0.", [.recurse, .type]⟩
    (Path.Led '.' ".a" "a" ∧ "..0.".toList.head? = some '.' ∧ (∃ c ∈ "..0.".toList, c ≠ '.') ∧
      selected.result ≠ .error (.tooDeep 2)) ∧
    Alike o selected longer ∧ selected.answer o = longer.answer o ∧
      (longer.answer o).bytes = Text.bytes "a..0=object\na..0.b=int\n".toList := by
  intro root o selected longer
  have hpath : Path.Led '.' ".a" "a" := ⟨by decide, by decide, by decide, by decide⟩
  have hhead : "..0.".toList.head? = some '.' := by decide
  have hsub : ∃ c ∈ "..0.".toList, c ≠ '.' := ⟨'0', by decide, by decide⟩
  have hresult : selected.result = .ok () := rfl
  have hne : selected.result ≠ .error (.tooDeep 2) := by
    rw [hresult]
    nofun
  have halike : Alike o selected longer :=
    subPath_continues_path (o := o) hpath hhead hsub root [.recurse, .type] hne
  exact ⟨⟨hpath, hhead, hsub, hne⟩, halike, halike.answer_eq, by decide +kernel⟩

end Query

end ConfigTree
