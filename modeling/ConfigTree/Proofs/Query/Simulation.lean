import ConfigTree.Proofs.Query.Events
import ConfigTree.Query.Output
import Mathlib.Data.List.Forall2

/-! Two runs side by side.  Where each command, run at related places, puts out related events and
leads to related places again, two chains of such commands come to events that are related one by
one.  Events that are written alike make alike runs: they write the same bytes and end the same way. -/

namespace ConfigTree.Query

/-! ## Events -/

section

variable {E : Event → Event → Prop} {P : Place → Place → Prop} {C : Command → Command → Prop}
  {d : Char} {expand : Bool}

/-- Related events, or related places that are put out as related events. -/
inductive Stop.Related (E : Event → Event → Prop) (P : Place → Place → Prop) : Stop → Stop → Prop
  | event {e e' : Event} (h : E e e') : Related E P (.event e) (.event e')
  | place {p p' : Place} {path key path' key' : String}
    (shown : E (.node p.node path key) (.node p'.node path' key')) (next : P p p') :
    Related E P (.place p path key) (.place p' path' key')

theorem forall₂_map {α β γ : Type} {R : β → γ → Prop} {f : α → β} {g : α → γ} {as : List α}
    (h : ∀ a ∈ as, R (f a) (g a)) : List.Forall₂ R (as.map f) (as.map g) :=
  List.forall₂_map_left_iff.2 (List.forall₂_map_right_iff.2 (List.forall₂_same.2 h))

/-- Commands related by `C` take places related by `P` to such places, and what they put out on the
way is related by `E`. -/
structure Simulation (d : Char) (expand : Bool) (E : Event → Event → Prop)
    (C : Command → Command → Prop) (P : Place → Place → Prop) : Prop where
  leadsOn : ∀ {c c'}, C c c' → c.leadsOn = c'.leadsOn
  depth : ∀ {p p'}, P p p' → E (.depth p.depth) (.depth p'.depth)
  reports : ∀ {c c' p p'}, C c c' → P p p' → List.Forall₂ E (reports d p c) (reports d p' c')
  stops : ∀ {c c' p p'}, C c c' → P p p' →
    List.Forall₂ (Stop.Related E P) (stops d expand p c) (stops d expand p' c')

/-- The induction is on the chains; behind a command that leads on it is used at every stop. -/
theorem Simulation.events (h : Simulation d expand E C P) {chain chain' : List Command}
    (hchain : List.Forall₂ C chain chain') {p p' : Place} (hp : P p p') :
    List.Forall₂ E (events d expand chain p) (events d expand chain' p') := by
  induction hchain generalizing p p' with
  | nil => exact .nil
  | @cons c c' rest rest' hc hrest ih =>
    have hstop : ∀ s s', Stop.Related E P s s' →
        List.Forall₂ E (s.events rest (Query.events d expand rest))
          (s'.events rest' (Query.events d expand rest')) := by
      intro s s' hs
      cases hs with
      | event he => exact .cons he .nil
      | place hshown hnext =>
        cases hrest with
        | nil => exact .cons hshown .nil
        | cons => exact ih hnext
    rw [Query.events, Query.events, ← h.leadsOn hc]
    refine .cons (h.depth hp) ?_
    split
    · exact List.rel_flatMap (h.stops hc hp) hstop
    · exact List.rel_append (h.reports hc hp) (ih hp)

end

/-! ## Traces -/

variable {α β : Type} {o : Options}

/-- The two write the same, whatever has been written before them, and end the same way. -/
structure Alike (o : Options) (t t' : Trace α) : Prop where
  writes : ∀ s, o.writeAll s t.records = o.writeAll s t'.records
  ends : t.result = t'.result

/-- One depth held against the limit, or records that are written the same. -/
inductive Event.Alike (o : Options) : Event → Event → Prop
  | depth (k : Nat) : Alike o (.depth k) (.depth k)
  | record {e e' : Event} {r r' : Record} (hr : e.record? = some r) (hr' : e'.record? = some r')
    (writes : ∀ s, o.write s r = o.write s r') : Alike o e e'

theorem Alike.refl (t : Trace α) : Alike o t t := ⟨fun _ => rfl, rfl⟩

theorem Alike.answer_eq {t t' : Trace Unit} (h : Alike o t t') : t.answer o = t'.answer o := by
  rw [Trace.answer, Trace.answer, h.writes, h.ends]

theorem Alike.bind {t t' : Trace α} {f f' : α → Trace β} (h : Alike o t t')
    (hf : ∀ a, Alike o (f a) (f' a)) : Alike o (t >>= f) (t' >>= f') := by
  obtain ⟨records, result⟩ := t
  obtain ⟨records', result'⟩ := t'
  obtain ⟨hwrites, rfl⟩ := h
  cases result with
  | error e => exact ⟨hwrites, rfl⟩
  | ok a =>
    refine ⟨fun s => ?_, (hf a).ends⟩
    have hfirst : o.writeAll s records = o.writeAll s records' := hwrites s
    change o.writeAll s (records ++ (f a).records) = o.writeAll s (records' ++ (f' a).records)
    rw [Options.writeAll_append, Options.writeAll_append, hfirst, (hf a).writes]

/-- A label is all that display path and key have to do with what is written. -/
theorem alike_node {path key path' key' : String} (h : o.labelText path key = o.labelText path' key')
    (n : Option Node) : Event.Alike o (.node n path key) (.node n path' key') := by
  refine .record rfl rfl fun s => ?_
  simp only [Options.write, Options.frame, h]

theorem alike_figure {path path' : String} (h : o.labelText path "" = o.labelText path' "")
    (n : Option Node) (text : String) : Event.Alike o (.figure n path text) (.figure n path' text) := by
  refine .record rfl rfl fun s => ?_
  simp only [Options.write, Options.frame, h]

theorem perform_of_record? {limit : Nat} {e : Event} {r : Record} (h : e.record? = some r) :
    perform limit [e] = .put r := by
  cases e with
  | depth k => cases h
  | _ =>
    cases h
    rfl

theorem Event.Alike.perform {e e' : Event} (h : Event.Alike o e e') (limit : Nat) :
    Query.Alike o (perform limit [e]) (perform limit [e']) := by
  cases h with
  | depth k => exact .refl _
  | record hr hr' hwrites =>
    rw [perform_of_record? hr, perform_of_record? hr']
    refine ⟨fun s => ?_, rfl⟩
    simp only [Trace.put, Options.writeAll, hwrites]

theorem alike_perform {es es' : List Event} (h : List.Forall₂ (Event.Alike o) es es')
    (limit : Nat) : Alike o (perform limit es) (perform limit es') := by
  induction h with
  | nil => exact .refl _
  | @cons e e' es es' he _ ih =>
    rw [perform_cons, perform_cons e' es']
    exact (he.perform limit).bind fun _ => ih

/-! ## Runs -/

section

variable {C : Command → Command → Prop} {P : Place → Place → Prop}
  {chain chain' : List Command} {p p' : Place}

theorem Simulation.alike_runChain
    (h : Simulation o.inputDelimiter o.expand (Event.Alike o) C P)
    (hchain : List.Forall₂ C chain chain') (hp : P p p') :
    Alike o (runChain o chain p) (runChain o chain' p') := by
  rw [runChain_eq_perform, runChain_eq_perform]
  exact alike_perform (h.events hchain hp) o.maxDepth

theorem Simulation.depth_eq (h : Simulation o.inputDelimiter o.expand (Event.Alike o) C P)
    (hp : P p p') : p.depth = p'.depth := by
  generalize hd : p.depth = k, hd' : p'.depth = k'
  cases hd ▸ hd' ▸ h.depth hp with
  | depth => rfl
  | record hr => cases hr

theorem Simulation.alike_evaluate
    (h : Simulation o.inputDelimiter o.expand (Event.Alike o) C P)
    (hchain : List.Forall₂ C chain chain') (hp : P p p') :
    Alike o (evaluate o chain p) (evaluate o chain' p') := by
  have hdepth := h.depth_eq hp
  have hevents := h.events hchain hp
  cases hchain with
  | nil =>
    rw [evaluate, evaluate, hdepth]
    exact .refl _
  | @cons c c' rest rest' hc hrest =>
    have hleads := h.leadsOn hc
    cases hc' : c.leadsOn with
    | true =>
      rw [evaluate_of_leadsOn (runChain_eq_perform o rest) hc',
        evaluate_of_leadsOn (runChain_eq_perform o rest') (hleads ▸ hc'), hdepth,
        List.length_cons, List.length_cons, hrest.length_eq]
      exact (alike_perform hevents o.maxDepth).bind fun _ => .refl _
    | false =>
      rw [evaluate_of_reports hc', evaluate_of_reports (hleads ▸ hc'), hdepth]
      have hreports := List.Forall₂.cons (h.depth hp) (h.reports hc hp)
      rw [hdepth] at hreports
      exact (alike_perform hreports o.maxDepth).bind fun _ => .refl _

end

end ConfigTree.Query
