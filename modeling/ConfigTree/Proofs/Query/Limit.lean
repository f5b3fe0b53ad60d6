import ConfigTree.Proofs.Edit.Update
import ConfigTree.Proofs.Node.Depth
import ConfigTree.Proofs.Query.Events
import ConfigTree.Query.Output

/-! What the depth limit does to a query.  A chain goes one level down with each level of the tree
and with each sub-path, and no further, so a query for which the limit is high enough is never cut
off.  Where it is cut off, what is out by then is where the output under a higher limit starts. -/

namespace ConfigTree

namespace Node

theorem depth_le_of_follow? {segments : List String} {n m : Node}
    (h : n.follow? segments = some m) : m.depth ≤ n.depth :=
  Nat.le_trans (Nat.le_add_left ..) (length_add_depth_le_of_follow? h)

theorem depth_lt_of_mem_children {n : Node} {c : String × Node} (h : c ∈ n.children) :
    c.2.depth < n.depth := depth_lt_of_mem_inner (mem_inner_of_mem_children h)

theorem depth_lt_of_mem_firstChildren {n : Node} {c : String × Node} (h : c ∈ n.firstChildren) :
    c.2.depth < n.depth := by
  cases n with
  | array items => exact depth_lt_of_mem_children h
  | object o =>
    obtain ⟨e, he, rfl⟩ := List.mem_map.1 h
    cases hfirst : e.2.first? with
    | none =>
      rw [Member.first, hfirst]
      exact depth_pos_iff.2 rfl
    | some m =>
      have hm : m ∈ e.2.values := Member.mem_values_of_first? hfirst
      rw [Member.first, hfirst]
      exact depth_lt_of_mem_inner (Multimap.mem_values_of_mem he hm)
  | _ => cases h

end Node

def Command.isSelect : Command → Bool
  | select _ => true
  | _ => false

namespace Query

/-! ## Within the limit -/

/-- How deep the evaluation gets where it goes down to the leaves below a place. -/
def Place.reach (p : Place) : Nat := p.depth + p.node.elim 0 Node.depth

/-- The limit leaves room for the leaves below the place, and for one level more with each sub-path
that is still to come. -/
def HasRoom (limit : Nat) (chain : List Command) (p : Place) : Prop :=
  p.reach + chain.countP Command.isSelect ≤ limit

section

variable {limit : Nat} {rest : List Command} {d : Char} {expand : Bool}

theorem HasRoom.depth_le {chain : List Command} {p : Place} (h : HasRoom limit chain p) :
    p.depth ≤ limit := by
  rw [HasRoom, Place.reach] at h
  omega

theorem HasRoom.tail {command : Command} {p : Place} (h : HasRoom limit (command :: rest) p) :
    HasRoom limit rest p := by
  rw [HasRoom, List.countP_cons] at h
  rw [HasRoom]
  omega

/-- One level down in the tree takes one level of depth. -/
theorem HasRoom.below {n m : Node} {path path' : String} {depth : Nat}
    (h : HasRoom limit rest ⟨some n, path, depth⟩) (hm : m.depth < n.depth) :
    HasRoom limit rest ⟨some m, path', depth + 1⟩ := by
  simp only [HasRoom, Place.reach, Option.elim_some] at h ⊢
  omega

theorem hasRoom_preorder {path : String} {depth : Nat} {n : Node}
    (h : HasRoom limit rest ⟨some n, path, depth⟩) :
    ∀ s ∈ preorder d expand path depth n,
      s.Keeps (·.isWithin limit = true) (HasRoom limit rest) := by
  refine forall_preorder_at (fun path depth n => HasRoom limit rest ⟨some n, path, depth⟩)
    (fun _ _ _ h => decide_eq_true h.depth_le) (fun path n e he => ?_) (fun _ _ _ h => ⟨rfl, h⟩)
    (fun _ _ _ h c hc => h.below (Node.depth_lt_of_mem_children hc)) h
  obtain ⟨m, key, rfl⟩ := exists_of_mem_asides he
  rfl

theorem hasRoom_stops {command : Command} {p : Place} (h : HasRoom limit (command :: rest) p) :
    ∀ s ∈ stops d expand p command, s.Keeps (·.isWithin limit = true) (HasRoom limit rest) := by
  obtain ⟨node, path, depth⟩ := p
  intro s hs
  cases command with
  | each =>
    obtain ⟨c, hc, rfl⟩ := List.mem_map.1 hs
    cases node with
    | none => cases hc
    | some n => exact ⟨rfl, h.tail.below (Node.depth_lt_of_mem_children hc)⟩
  | iterate =>
    obtain ⟨c, hc, rfl⟩ := List.mem_map.1 hs
    cases node with
    | none => cases hc
    | some n => exact ⟨rfl, h.tail.below (Node.depth_lt_of_mem_firstChildren hc)⟩
  | recurse =>
    cases node with
    | none => cases hs
    | some n => exact hasRoom_preorder h.tail s hs
  | select paths =>
    obtain ⟨sub, -, rfl⟩ := List.mem_map.1 hs
    refine ⟨rfl, ?_⟩
    have hle : (node.bind (Node.lookup? d sub)).elim 0 Node.depth ≤ node.elim 0 Node.depth := by
      cases hm : node.bind (Node.lookup? d sub) with
      | none => exact Nat.zero_le _
      | some m =>
        obtain ⟨n, rfl, hlookup⟩ := Option.bind_eq_some_iff.1 hm
        exact Node.depth_le_of_follow? hlookup
    simp only [HasRoom, Place.reach, List.countP_cons, Command.isSelect, if_true] at h ⊢
    omega
  | _ => cases hs

theorem isWithin_events {chain : List Command} {p : Place} (h : HasRoom limit chain p) :
    ∀ e ∈ events d expand chain p, e.isWithin limit = true :=
  forall_events_along (HasRoom limit) (fun _ _ _ h => decide_eq_true h.depth_le)
    (fun _ _ _ _ => isWithin_reports) (fun _ _ _ h => h.tail) (fun _ _ _ h => hasRoom_stops h) h

theorem perform_of_isWithin {es : List Event} (h : ∀ e ∈ es, e.isWithin limit = true) :
    perform limit es = ⟨es.filterMap Event.record?, .ok ()⟩ := by
  rw [perform, List.takeWhile_eq_self_iff.2 h, if_pos (List.all_eq_true.2 h)]

end

/-- A request is run to its end where the limit is no less than the depth of the tree and the number
of sub-path tokens in its chain. -/
theorem run_eq_of_depth_le {o : Options} {root : Node} {request : Request}
    (h : root.depth + request.chain.countP Command.isSelect ≤ o.maxDepth) :
    run o root request =
      ⟨(requestEvents o.inputDelimiter o.expand root request).filterMap Event.record?, .ok ()⟩ := by
  rw [run_eq_perform]
  refine perform_of_isWithin fun e he => ?_
  rw [requestEvents] at he
  split at he
  · cases List.mem_singleton.1 he
    rfl
  · refine isWithin_events ?_ e he
    simp only [HasRoom, Place.reach, Nat.zero_add]
    cases hn : root.lookup? o.inputDelimiter request.path with
    | none =>
      rw [Option.elim_none]
      omega
    | some n =>
      have hle := Node.depth_le_of_follow? hn
      rw [Option.elim_some]
      omega

/-- A walk of a tree of depth 2, with two sub-paths from each node on the way, fits a limit of 3. -/
theorem run_eq_of_depth_le_at_select :
    let root : Node := .object ⟨[("a", .single (.array [.int 1]))]⟩
    let request : Request := ⟨"", [.recurse, .select [".0", ".a"], .type]⟩
    let o : Options := { (default : Options) with showKeys := true, maxDepth := 3 }
    root.depth + request.chain.countP Command.isSelect ≤ o.maxDepth ∧
      run o root request =
        ⟨(requestEvents o.inputDelimiter o.expand root request).filterMap Event.record?, .ok ()⟩ ∧
      ((run o root request).answer o).bytes =
        Text.bytes "a.0=int\na.a=null\na.0.0=null\na.0.a=null\n".toList := by
  intro root request o
  have hroom : root.depth + request.chain.countP Command.isSelect ≤ o.maxDepth := by decide
  exact ⟨hroom, run_eq_of_depth_le hroom, by decide +kernel⟩

/-! ## Under a higher limit -/

section

variable {o : Options} {m m' : Nat}

theorem isWithin_of_le (h : m ≤ m') {e : Event} (he : e.isWithin m = true) :
    e.isWithin m' = true := by
  cases e with
  | depth d => exact decide_eq_true (Nat.le_trans (of_decide_eq_true he) h)
  | _ => rfl

theorem prefix_records_perform (h : m ≤ m') (es : List Event) :
    (perform m es).records <+: (perform m' es).records := by
  have htake : es.takeWhile (·.isWithin m) =
      (es.takeWhile (·.isWithin m')).takeWhile (·.isWithin m) := by
    rw [List.takeWhile_takeWhile]
    congr 1
    funext e
    cases he : e.isWithin m with
    | false => simp
    | true => simp [isWithin_of_le h he]
  rw [perform, perform, htake]
  refine List.IsPrefix.filterMap _ ?_
  exact List.takeWhile_prefix _

theorem isWithin_of_ne_tooDeep {es : List Event}
    (h : (perform m es).result ≠ .error (.tooDeep m)) : ∀ e ∈ es, e.isWithin m = true := by
  by_contra hbeyond
  exact h (if_neg (mt List.all_eq_true.1 hbeyond))

/-- Events that do not reach the limit come to the same under a higher one. -/
theorem perform_eq_of_ne_tooDeep (h : m ≤ m') {es : List Event}
    (hes : (perform m es).result ≠ .error (.tooDeep m)) : perform m' es = perform m es := by
  have hwithin : ∀ e ∈ es, e.isWithin m = true := isWithin_of_ne_tooDeep hes
  rw [perform_of_isWithin hwithin, perform_of_isWithin fun e he => isWithin_of_le h (hwithin e he)]

theorem result_answer (t : Trace Unit) : (t.answer o).result = t.result := by
  rw [Trace.answer]
  cases t.result <;> rfl

/-- What is put out before an error stays where it is, whatever else is put out instead of it. -/
theorem prefix_bytes_answer {t t' : Trace Unit} {e : Error} (h : t.records <+: t'.records)
    (ht : t.result = .error e) : (t.answer o).bytes <+: (t'.answer o).bytes := by
  obtain ⟨more, hmore⟩ := h
  have hwritten : (o.writeAll .start t.records).1 <+: (o.writeAll .start t'.records).1 := by
    rw [← hmore, Options.writeAll_append]
    exact List.prefix_append ..
  rw [Trace.answer, Trace.answer, ht]
  cases t'.result with
  | error e' => exact hwritten
  | ok _ => exact hwritten.trans (List.prefix_append ..)

theorem prefix_bytes_perform (h : m ≤ m') (es : List Event) :
    ((perform m es).answer o).bytes <+: ((perform m' es).answer o).bytes := by
  cases hresult : (perform m es).result with
  | error e => exact prefix_bytes_answer (prefix_records_perform h es) hresult
  | ok _ =>
    have hsame : perform m' es = perform m es :=
      perform_eq_of_ne_tooDeep h (by rw [hresult]; nofun)
    exact hsame ▸ List.prefix_rfl

theorem answer_limit (t : Trace Unit) : t.answer { o with maxDepth := m } = t.answer o := by
  have hwrite (s : Output) (r : Record) : { o with maxDepth := m }.write s r = o.write s r := by
    cases r with
    | node n path key => cases hn : n.getD .null <;> simp only [Options.write, hn] <;> rfl
    | _ => rfl
  have hwriteAll (s : Output) (rs : List Record) :
      { o with maxDepth := m }.writeAll s rs = o.writeAll s rs := by
    induction rs generalizing s with
    | nil => rfl
    | cons r rs ih => simp only [Options.writeAll, hwrite, ih]
  rw [Trace.answer, Trace.answer, hwriteAll]
  rfl

theorem answer_eq_perform (root : Node) (requests : List String) :
    answer { o with maxDepth := m } root requests = match parseAll o requests with
      | .ok parsed => Trace.answer o
          (perform m (parsed.flatMap (requestEvents o.inputDelimiter o.expand root)))
      | .error e => ⟨[], false, .error e⟩ := by
  have hforM (parsed : List Request) : parsed.forM (run { o with maxDepth := m } root) =
      perform m (parsed.flatMap (requestEvents o.inputDelimiter o.expand root)) := by
    rw [perform_flatMap]
    exact forM_congr fun request _ => run_eq_perform ..
  rw [answer]
  simp only [hforM, answer_limit]
  rfl

end

/-- Unless a query ends at the limit, its answer is the same under a higher one; and in any case
what it puts out is where the output under the higher limit starts. -/
theorem answer_extends {m m' : Nat} (h : m ≤ m') (o : Options) (root : Node)
    (requests : List String) :
    let low := answer { o with maxDepth := m } root requests
    let high := answer { o with maxDepth := m' } root requests
    (low.result ≠ .error (.tooDeep m) → high = low) ∧ low.bytes <+: high.bytes := by
  intro low high
  simp only [low, high, answer_eq_perform]
  cases parseAll o requests with
  | error e => exact ⟨fun _ => rfl, List.prefix_rfl⟩
  | ok parsed =>
    refine ⟨fun hlow => ?_, prefix_bytes_perform h _⟩
    simp only [result_answer] at hlow
    exact congrArg (Trace.answer o) (perform_eq_of_ne_tooDeep h hlow)

/-- Under a limit of 1 the walk ends before the second level; under 2 it goes on to the number. -/
theorem answer_extends_below_limit :
    let root : Node := .object ⟨[("a", .single (.object ⟨[("b", .single (.int 7))]⟩))]⟩
    let requests := ["a|type", "|recurse|type"]
    let low := answer { (default : Options) with maxDepth := 1 } root requests
    let high := answer { (default : Options) with maxDepth := 2 } root requests
    1 ≤ 2 ∧ low.result = .error (.tooDeep 1) ∧ low.bytes = Text.bytes "object\nobject\n".toList ∧
      high.bytes = Text.bytes "object\nobject\nint\n".toList ∧
      (low.result ≠ .error (.tooDeep 1) → high = low) ∧ low.bytes <+: high.bytes := by
  intro root requests low high
  have hresult : low.result = .error (.tooDeep 1) := rfl
  exact ⟨by decide, hresult, by decide +kernel, by decide +kernel,
    answer_extends (by decide) default root requests⟩

end Query

end ConfigTree
