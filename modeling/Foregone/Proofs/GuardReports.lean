import Foregone.Diagnostic
import Foregone.Proofs.Encoding
import Foregone.Proofs.Occurrences

/-! # What is reported about the guards of a source

Every `if` statement of a tree is found once, with its own guards and no others, and every
guard that is the same on every run is reported once, in order, to the caller and to the
sink. A guard that nests too deeply is passed over. -/

namespace Foregone

variable {host : Host}

/-! ## Verdicts -/

namespace Guard

theorem verdict?_eq_some_iff {g : Guard} {b : Bool} :
    g.verdict? host = some b ↔
      host.cannotEvaluate g.expr = false ∧ g.expr.verdict? = .ok (some b) := by
  rw [verdict?, Expr.evaluateBounded, Expr.verdict?]
  cases host.cannotEvaluate g.expr with
  | true => simp
  | false =>
    cases g.expr.evaluate with
    | ok v => simp [Except.mapError, Except.map]
    | error f => simp [Except.mapError, Except.map]

/-- Nothing is known of a condition of which only the kind is kept. -/
theorem verdict?_foreign {g : Guard} {kind : String} (h : g.expr = .foreign kind) :
    g.verdict? host = none := by
  refine Option.eq_none_iff_forall_ne_some.mpr fun b hb => ?_
  have hverdict := (verdict?_eq_some_iff.mp hb).2
  rw [h] at hverdict
  cases hverdict

theorem verdict?_ofNode (source : List UInt8) (c : Node) (b : Bool) :
    (ofNode source c host).verdict? host = some b ↔
      host.cannotConvert c = false ∧ host.cannotEvaluate c.toExpr = false ∧
        c.toExpr.verdict? = .ok (some b) := by
  cases hconvert : host.cannotConvert c with
  | true =>
    have hexpr : (ofNode source c host).expr = c.foreign := by rw [ofNode, if_pos hconvert]
    simp [verdict?_foreign hexpr]
  | false =>
    have hexpr : (ofNode source c host).expr = c.toExpr := by
      rw [ofNode, if_neg (by simp [hconvert])]
    rw [verdict?_eq_some_iff, hexpr]
    simp

/-- The guard nests too deeply to be converted, or to be evaluated. -/
inductive TooDeep (host : Host) : Guard → Prop
  | converted (source : List UInt8) {c : Node} (h : host.cannotConvert c = true) :
    TooDeep host (ofNode source c host)
  | evaluated {g : Guard} (h : host.cannotEvaluate g.expr = true) : TooDeep host g

theorem TooDeep.diagnostic?_eq_none {g : Guard} (h : TooDeep host g) :
    g.diagnostic? host = none := by
  have hverdict : g.verdict? host = none := by
    cases h with
    | @converted source c h =>
      have hexpr : (ofNode source c host).expr = c.foreign := by rw [ofNode, if_pos h]
      exact verdict?_foreign hexpr
    | evaluated h => rw [verdict?, Expr.evaluateBounded, if_pos h]
  rw [diagnostic?, hverdict, Option.map_none]

end Guard

/-! ## Reports -/

namespace IfStatement

/-- The reports about all guards, statement by statement and guard by guard. -/
def diagnostics (statements : List IfStatement) (host : Host) : List Diagnostic :=
  statements.flatMap fun s => s.guards.filterMap (Guard.diagnostic? · host)

section Sink

variable {m : Type → Type} [Monad m] [LawfulMonad m] {α β : Type} (sink : Diagnostic → m Unit)

/-- What is reported step by step is what all steps report, in order. -/
theorem mapM_reporting {step : α → m β} {reports : α → List Diagnostic} {result : α → β}
    (h : ∀ x, step x = forM (reports x) sink >>= fun _ => pure (result x)) (xs : List α) :
    xs.mapM step = forM (xs.flatMap reports) sink >>= fun _ => pure (xs.map result) := by
  induction xs with
  | nil => simp
  | cons x xs ih =>
    rw [List.mapM_cons, ih, h, List.flatMap_cons, List.forM_append, List.map_cons]
    simp only [bind_assoc, pure_bind]

theorem check_guard_eq (g : Guard) : g.check sink host =
    forM (g.diagnostic? host).toList sink >>= fun _ => pure (g.diagnostic? host) := by
  rw [Guard.check]
  cases g.diagnostic? host <;> simp

theorem check_eq (s : IfStatement) : s.check sink host =
    forM (s.guards.filterMap (Guard.diagnostic? · host)) sink >>= fun _ =>
      pure (s.guards.filterMap (Guard.diagnostic? · host)) := by
  rw [check, mapM_reporting sink (check_guard_eq sink), ← List.filterMap_eq_flatMap_toList]
  simp

/-- All reports about the statements go to the sink, and are returned. -/
theorem checkAll_eq (statements : List IfStatement) :
    checkAll sink statements host = forM (diagnostics statements host) sink >>= fun _ =>
      pure (diagnostics statements host) := by
  rw [checkAll, mapM_reporting sink (check_eq sink)]
  simp [diagnostics, List.flatMap_def]

end Sink

/-- A guard that nests too deeply is passed over: all is as without it. -/
theorem diagnostics_tooDeep {g : Guard} (h : g.TooDeep host) (before behind : List IfStatement)
    (gs gs' : List Guard) (l : Location) :
    diagnostics (before ++ ⟨gs ++ g :: gs', l⟩ :: behind) host =
      diagnostics (before ++ ⟨gs ++ gs', l⟩ :: behind) host := by
  simp only [diagnostics, List.flatMap_append, List.flatMap_cons, List.filterMap_append,
    List.filterMap_cons, h.diagnostic?_eq_none]

/-! ## Statements of a tree -/

/-- The statement is what the node says: it has the place of the node, and for its guards
the conditions of the node, all of them and one behind the other, its own before those of
its `elif` clauses. -/
structure Matches (source : List UInt8) (host : Host) (n : Node) (s : IfStatement) : Prop where
  location : s.location = .ofNode source n
  guards : ∃ i own clauses, Node.Lists n.GuardAt (([i], own) :: clauses) ∧
    (∀ o ∈ clauses, ∃ j k, o.1 = [j, k]) ∧
    (own :: clauses.map Prod.snd).Pairwise (fun c d => c.stop ≤ d.start) ∧
    s.guards = (own :: clauses.map Prod.snd).map (Guard.ofNode source · host)

variable {B : Nat → Prop} {n tree : Node}

theorem exists_matches (source : List UInt8) (h : n.Laid B) (hn : n.kind = .ifStatement) :
    ∃ s, ofNode? source n host = some s ∧ Matches source host n s := by
  obtain ⟨i, own, clauses, hguards, hplaces, hconditions⟩ := h.exists_guards hn
  have hlists := n.lists_guardOccurrences
  have hordered : (n.guardOccurrences.map Prod.snd).Pairwise fun c d => c.stop ≤ d.start := by
    refine List.pairwise_map.mpr ((List.pairwise_map.mp hlists.ordered).imp_of_mem ?_)
    intro o o' ho ho' hlt
    exact h.guards_ordered ((hlists.mem o.1 o.2).mp ho) ((hlists.mem o'.1 o'.2).mp ho') hlt
  rw [hguards] at hlists hordered hconditions
  exact ⟨_, by rw [ofNode?, hconditions, Option.map_some], rfl, i, own, clauses, hlists, hplaces,
    hordered, rfl⟩

/-- No node of the list is left out if each has a statement. -/
theorem forall₂_matches {source : List UInt8} {ns : List Node}
    (h : ∀ n ∈ ns, ∃ s, ofNode? source n host = some s ∧ Matches source host n s) :
    List.Forall₂ (Matches source host) ns (ns.filterMap (ofNode? source · host)) := by
  induction ns with
  | nil => exact .nil
  | cons n ns ih =>
    obtain ⟨⟨s, hs, hmatches⟩, hns⟩ := List.forall_mem_cons.mp h
    rw [List.filterMap_cons, hs]
    exact .cons hmatches (ih hns)

/-- The statements of a tree are found at any depth, each once and in order. -/
theorem exists_occurrences (source : List UInt8) (h : tree.IsModule B) :
    ∃ os, Node.Lists tree.IfAt os ∧ (os.map Prod.snd).Pairwise (fun a b => a.start < b.start) ∧
      List.Forall₂ (Matches source host) (os.map Prod.snd) (ofTree source tree host) := by
  have hlists := h.listsIfs.lists
  refine ⟨tree.ifOccurrences, hlists, ?_, ?_⟩
  · rw [h.listsIfs.nodes]
    exact h.ascending
  · rw [ofTree, h.nodesOf_eq, ← h.listsIfs.nodes]
    refine forall₂_matches fun n hn => ?_
    obtain ⟨⟨p, n⟩, hmem, rfl⟩ := List.mem_map.mp hn
    have hif := (hlists.mem p n).mp hmem
    exact exists_matches source (h.laid_of_ifAt hif) hif.2

/-! ## Reports about a source -/

theorem diagnostic?_ofNode (source : List UInt8) (c : Node) (d : Diagnostic) :
    (Guard.ofNode source c host).diagnostic? host = some d ↔
      host.cannotConvert c = false ∧ host.cannotEvaluate c.toExpr = false ∧
        ∃ b, c.toExpr.verdict? = .ok (some b) ∧ d = .ofVerdict (.ofNode source c) b := by
  rw [Guard.diagnostic?, Option.map_eq_some_iff]
  constructor
  · intro h
    obtain ⟨b, hb, rfl⟩ := h
    obtain ⟨hconvert, hevaluate, hverdict⟩ := (Guard.verdict?_ofNode source c b).mp hb
    exact ⟨hconvert, hevaluate, b, hverdict, rfl⟩
  · intro h
    obtain ⟨hconvert, hevaluate, b, hverdict, rfl⟩ := h
    exact ⟨b, (Guard.verdict?_ofNode source c b).mpr ⟨hconvert, hevaluate, hverdict⟩, rfl⟩

/-- Nothing is lost and nothing made up. The statements of a tree are all its `if`
statements, in the order in which they start, each with its own guards, and no guard belongs
to two of them. What is returned is what the sink is given: one report for each guard with a
verdict, in order. A guard that nests too deeply for the host, to be converted or to be
evaluated, has none and changes nothing else. A source is checked by its tree, which is that
of the grammar if there is one, and then of this kind. -/
theorem guards_reported {m : Type → Type} [Monad m] [LawfulMonad m] (sink : Diagnostic → m Unit)
    (host : Host) (source : List UInt8) (h : tree.IsModule B) :
    (∃ os, Node.Lists tree.IfAt os ∧
      (os.map Prod.snd).Pairwise (fun a b => a.start < b.start) ∧
      List.Forall₂ (Matches source host) (os.map Prod.snd) (ofTree source tree host)) ∧
    (∀ p q n n' r r' c c', tree.IfAt p n → tree.IfAt q n' → n.GuardAt r c → n'.GuardAt r' c' →
      p ++ r = q ++ r' → p = q ∧ r = r') ∧
    checkAll sink (ofTree source tree host) host = (do
      forM (diagnostics (ofTree source tree host) host) sink
      return diagnostics (ofTree source tree host) host) ∧
    (∀ c d, (Guard.ofNode source c host).diagnostic? host = some d ↔
      host.cannotConvert c = false ∧ host.cannotEvaluate c.toExpr = false ∧
        ∃ b, c.toExpr.verdict? = .ok (some b) ∧ d = .ofVerdict (.ofNode source c) b) ∧
    (∀ g : Guard, g.TooDeep host → g.diagnostic? host = none ∧ ∀ before behind gs gs' l,
      checkAll sink (before ++ ⟨gs ++ g :: gs', l⟩ :: behind) host =
        checkAll sink (before ++ ⟨gs ++ gs', l⟩ :: behind) host) ∧
    (∀ text, ofSource text host = ofTree text (host.parse text) host ∧
      checkSource sink text host = (do
        forM (diagnostics (ofSource text host) host) sink
        return diagnostics (ofSource text host) host)) ∧
    (∀ text root, Node.ofSource? text = some root →
      host.parse text = root ∧ root.IsModule (Glyph.Between (Utf8.glyphs text))) := by
  refine ⟨exists_occurrences source h, ?_, checkAll_eq sink _, diagnostic?_ofNode source, ?_,
    fun text => ⟨rfl, checkAll_eq sink _⟩, ?_⟩
  · intro p q n n' r r' c c' hn hn' hr hr' heq
    exact Node.guardAt_unique hn hn' hr hr' heq
  · intro g hg
    refine ⟨hg.diagnostic?_eq_none, fun before behind gs gs' l => ?_⟩
    rw [checkAll_eq, checkAll_eq, diagnostics_tooDeep hg]
  · intro text root hroot
    exact ⟨Host.parse_eq hroot, Node.isModule_ofSource? hroot⟩

/-- The outer statement comes first, with the guard of its `elif` and without the one
inside. A host that cannot convert the inner guard reports the other one only. -/
theorem guards_reported_nested :
    let source := Utf8.encode "if x:\n  if True:\n    pass\nelif False:\n  pass\n"
    let outer : Diagnostic := ⟨⟨4, 6, 4, 11⟩, "The condition is always false", false⟩
    let inner : Diagnostic := ⟨⟨2, 6, 2, 10⟩, "The condition is always true", true⟩
    let sink (d : Diagnostic) : StateM (List Diagnostic) Unit := modify (· ++ [d])
    let narrow : Host := { Host.usual with cannotConvert c := c.kind = .trueLiteral }
    (∃ tree, Node.ofSource? source = some tree ∧
      tree.IsModule (Glyph.Between (Utf8.glyphs source))) ∧
    (checkSource sink source).run [] = ([outer, inner], [outer, inner]) ∧
    (checkSource sink source narrow).run [] = ([outer], [outer]) := by
  intro source outer inner sink narrow
  have hsource : source = "if x:\n  if True:\n    pass\nelif False:\n  pass\n".toList.flatMap
      String.utf8EncodeChar := Utf8.encode_eq _
  have hread : (Node.ofSource? source).map (fun tree =>
      (diagnostics (tree.ifStatements.filterMap (ofNode? source · .usual)) .usual,
        diagnostics (tree.ifStatements.filterMap (ofNode? source · narrow)) narrow)) =
      some ([outer, inner], [outer]) := by
    rw [hsource]
    decide +kernel
  obtain ⟨tree, htree, hfound⟩ := Option.map_eq_some_iff.mp hread
  obtain ⟨husual, hnarrow⟩ := Prod.mk.inj hfound
  have hmodule := Node.isModule_ofSource? htree
  have hchecked (host : Host) : checkSource sink source host = (do
      forM (diagnostics (tree.ifStatements.filterMap (ofNode? source · host)) host) sink
      return diagnostics (tree.ifStatements.filterMap (ofNode? source · host)) host) := by
    obtain ⟨-, -, -, -, -, hchecked, hparse⟩ := guards_reported sink host source hmodule
    obtain ⟨hstatements, hrun⟩ := hchecked source
    rw [hrun, hstatements, (hparse source tree htree).1, ofTree, hmodule.nodesOf_eq]
  refine ⟨⟨tree, htree, hmodule⟩, ?_, ?_⟩
  · rw [hchecked, husual]
    rfl
  · rw [hchecked, hnarrow]
    rfl

end IfStatement
end Foregone
