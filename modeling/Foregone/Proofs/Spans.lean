import Foregone.Proofs.Reading

/-! # Where nodes lie

The children of a node lie one behind the other inside it, and tokens lie one behind the
other in their source. A rule keeps to that order: started on tokens that lie from some
offset on, it yields nodes that lie from there on and leaves tokens that lie behind them. So
this holds of all rules by what it is for the few they are made of. Along with the order goes
any property of offsets that all tokens share, such as to lie between two characters. -/

namespace Foregone

/-! ## Rows of nodes -/

/-- A kind of which no more is required than order. -/
def Kind.isPlain (k : Kind) : Bool := !k.isExtra && k != .ifStatement && k != .elifClause

theorem Kind.isPlain_facts {k : Kind} (h : k.isPlain = true) :
    k.isExtra = false ∧ k ≠ .ifStatement ∧ k ≠ .elifClause := by
  simpa [Kind.isPlain, and_assoc] using h

namespace Node

/-- The nodes lie one behind the other from `p` to `q`; extras, which have no label, stand
between them. -/
inductive Row : Nat → Nat → List Node → Prop
  | nil (p : Nat) : Row p p []
  | extra {p q : Nat} {m : Node} {ns : List Node} (hm : m.kind.isExtra = true)
      (hlabel : m.label = none) (h : Row p q ns) : Row p q (m :: ns)
  | node {p q : Nat} {n : Node} {ns : List Node} (hn : n.kind.isExtra = false)
      (hp : p ≤ n.start) (hle : n.start ≤ n.stop) (h : Row n.stop q ns) : Row p q (n :: ns)

theorem Row.le {p q : Nat} {ns : List Node} (h : Row p q ns) : p ≤ q := by
  induction h with
  | nil p => exact Nat.le_refl p
  | extra _ _ _ ih => exact ih
  | node _ hp hle _ ih => exact hp.trans (hle.trans ih)

theorem Row.single {p : Nat} {n : Node} (hn : n.kind.isExtra = false) (hp : p ≤ n.start)
    (hle : n.start ≤ n.stop) : Row p n.stop [n] := .node hn hp hle (.nil _)

theorem Row.append {p q r : Nat} {ms ns : List Node} (hm : Row p q ms) (hn : Row q r ns) :
    Row p r (ms ++ ns) := by
  induction hm with
  | nil p => exact hn
  | extra hm hlabel _ ih => exact .extra hm hlabel (ih hn)
  | node hplain hp hle _ ih => exact .node hplain hp hle (ih hn)

theorem Row.extras_append {p q : Nat} {extras ns : List Node}
    (hextras : ∀ m ∈ extras, m.kind.isExtra = true ∧ m.label = none) (h : Row p q ns) :
    Row p q (extras ++ ns) := by
  induction extras with
  | nil => exact h
  | cons m extras ih =>
    obtain ⟨⟨hm, hlabel⟩, hextras⟩ := List.forall_mem_cons.mp hextras
    exact .extra hm hlabel (ih hextras)

/-- A row ends where its last node does, if that is no extra. -/
theorem Row.getLast {p q : Nat} {ns : List Node} {n : Node} (h : Row p q ns)
    (hn : ns.getLast? = some n) (hkind : n.kind.isExtra = false) : p ≤ n.start ∧ n.stop = q := by
  induction h with
  | nil p => cases hn
  | @extra p q m ns hm _ h ih =>
    cases ns with
    | nil =>
      cases hn
      exact absurd (hkind.symm.trans hm) (by decide)
    | cons _ _ => exact ih (List.getLast?_cons_cons ▸ hn)
  | @node p q m ns hm hp hle h ih =>
    cases ns with
    | nil =>
      cases h
      cases hn
      exact ⟨hp, rfl⟩
    | cons _ _ =>
      obtain ⟨hstart, hstop⟩ := ih (List.getLast?_cons_cons ▸ hn)
      exact ⟨hp.trans (hle.trans hstart), hstop⟩

/-- Without the extras in front, a row starts at its first node. -/
theorem Row.exists_dropWhile {p q : Nat} {ns : List Node} (h : Row p q ns)
    (hns : ∃ c ∈ ns, c.kind.isExtra = false) :
    ∃ n rest, ns.dropWhile (fun c => c.kind.isExtra) = n :: rest ∧ p ≤ n.start ∧
      Row n.start q (n :: rest) := by
  induction h with
  | nil p => simp at hns
  | extra hm _ _ ih =>
    obtain ⟨n, rest, hdrop, hp, hrow⟩ := ih (by simpa [hm] using hns)
    exact ⟨n, rest, by simp [hm, hdrop], hp, hrow⟩
  | @node p q n ns hn hp hle h =>
    refine ⟨n, ns, List.dropWhile_cons_of_neg (by simp [hn]), hp, ?_⟩
    exact .node hn (Nat.le_refl _) hle h

/-- An `if` statement: a keyword that takes room comes first, and of all children one is
labelled as the condition, before those that are labelled as alternatives. -/
structure IsIf (n : Node) : Prop where
  keyword : ∃ k rest, n.children = k :: rest ∧ k.kind.isExtra = false ∧ k.children = [] ∧
    k.start < k.stop
  labels : ∃ i, n.children.filterMap label = .condition :: List.replicate i .alternative

/-- What is required of one node and its children: it starts and stops at offsets with the
property, its children lie in order inside it, an extra has none, and an `if` statement and
an `elif` clause have their conditions. -/
structure Seated (B : Nat → Prop) (n : Node) : Prop where
  start : B n.start
  stop : B n.stop
  le : n.start ≤ n.stop
  row : ∃ q ≤ n.stop, Row n.start q n.children
  extra : n.kind.isExtra = true → n.children = []
  isIf : n.kind = .ifStatement → n.IsIf
  isElif : n.kind = .elifClause → n.children.filterMap label = [.condition]

/-- The node and all nodes in it lie as they should. -/
inductive Laid (B : Nat → Prop) : Node → Prop
  | of {n : Node} (h : n.Seated B) (hc : ∀ c ∈ n.children, Laid B c) : Laid B n

variable {B : Nat → Prop}

theorem Laid.seated {n : Node} (h : n.Laid B) : n.Seated B := by
  cases h with
  | of h _ => exact h

theorem Laid.child {n c : Node} (h : n.Laid B) (hc : c ∈ n.children) : c.Laid B := by
  cases h with
  | of _ h => exact h c hc

theorem laid_leaf {k : Kind} {l : Option Label} {s e : Nat} {t : String} (hs : B s) (he : B e)
    (hle : s ≤ e) (hif : k ≠ .ifStatement) (helif : k ≠ .elifClause) : (leaf k l s e t).Laid B :=
  .of ⟨hs, he, hle, ⟨s, hle, .nil s⟩, fun _ => rfl, fun h => (hif h).elim, fun h => (helif h).elim⟩
    (fun _ hc => nomatch hc)

theorem start_labelled (l : Label) (n : Node) : (n.labelled l).start = n.start := by
  cases n <;> rfl

theorem stop_labelled (l : Label) (n : Node) : (n.labelled l).stop = n.stop := by
  cases n <;> rfl

theorem Laid.labelled {n : Node} (h : n.Laid B) (l : Label) : (n.labelled l).Laid B := by
  cases n with
  | leaf k l' s e t =>
    obtain ⟨⟨hs, he, hle, hrow, hextra, hif, helif⟩, hc⟩ := h
    exact .of ⟨hs, he, hle, hrow, hextra, fun hk => ⟨(hif hk).1, (hif hk).2⟩, helif⟩ hc
  | branch k l' s e cs =>
    obtain ⟨⟨hs, he, hle, hrow, hextra, hif, helif⟩, hc⟩ := h
    exact .of ⟨hs, he, hle, hrow, hextra, fun hk => ⟨(hif hk).1, (hif hk).2⟩, helif⟩ hc

end Node

/-- A row that ends with a node that is no extra, and of which all nodes are laid out. -/
structure Stretch (B : Nat → Prop) (p q : Nat) (ns : List Node) : Prop where
  row : Node.Row p q ns
  laid : ∀ n ∈ ns, n.Laid B
  last : ∃ n, ns.getLast? = some n ∧ n.kind.isExtra = false

namespace Stretch

variable {B : Nat → Prop} {p q r : Nat} {n : Node} {ms ns : List Node}

theorem append (hm : Stretch B p q ms) (hn : Stretch B q r ns) : Stretch B p r (ms ++ ns) := by
  obtain ⟨n, hlast, hkind⟩ := hn.last
  refine ⟨hm.row.append hn.row, fun n hmem => ?_, n, by simp [hlast], hkind⟩
  rcases List.mem_append.mp hmem with hmem | hmem
  · exact hm.laid n hmem
  · exact hn.laid n hmem

theorem single (hn : n.kind.isExtra = false) (hp : p ≤ n.start) (h : n.Laid B) :
    Stretch B p n.stop [n] :=
  ⟨.single hn hp h.seated.le, by simpa using h, n, rfl, hn⟩

theorem extras_append {extras : List Node} (h : Stretch B p q ns)
    (hextras : ∀ m ∈ extras, (m.kind.isExtra = true ∧ m.label = none) ∧ m.Laid B) :
    Stretch B p q (extras ++ ns) := by
  obtain ⟨n, hlast, hkind⟩ := h.last
  refine ⟨h.row.extras_append fun m hm => (hextras m hm).1, fun n hmem => ?_, n, by simp [hlast],
    hkind⟩
  rcases List.mem_append.mp hmem with hmem | hmem
  · exact (hextras n hmem).2
  · exact h.laid n hmem

/-- The last node alone takes the place of the stretch. -/
theorem getLast (h : Stretch B p q ns) (hn : ns.getLast? = some n) : Stretch B p q [n] := by
  obtain ⟨n', hlast, hkind⟩ := h.last
  cases hn.symm.trans hlast
  obtain ⟨hp, rfl⟩ := h.row.getLast hn hkind
  exact single hkind hp (h.laid n (List.mem_of_getLast? hn))

theorem labelled (h : Stretch B p q [n]) (l : Label) : Stretch B p q [n.labelled l] := by
  obtain ⟨_, hlast, hkind⟩ := h.last
  cases hlast
  obtain ⟨hp, rfl⟩ := h.row.getLast (n := n) rfl hkind
  rw [← Node.stop_labelled l n]
  refine single ?_ ?_ ((h.laid n List.mem_cons_self).labelled l)
  · rw [Node.kind_labelled]
    exact hkind
  · rw [Node.start_labelled]
    exact hp

/-- A branch over a stretch reaches from its first node to its end. -/
theorem branch {k : Kind} (h : Stretch B p q ns) (hk : k.isExtra = false)
    (hif : k = .ifStatement → (Node.of k ns).IsIf)
    (helif : k = .elifClause → (Node.of k ns).children.filterMap Node.label = [.condition]) :
    Stretch B p q [Node.of k ns] := by
  obtain ⟨z, hz, hkind⟩ := h.last
  obtain ⟨n, rest, hdrop, hp, hrow⟩ := h.row.exists_dropWhile ⟨z, List.mem_of_getLast? hz, hkind⟩
  have hlast : (n :: rest).getLast? = some z := by
    rw [← hz, ← List.takeWhile_append_dropWhile (p := fun c : Node => c.kind.isExtra) (l := ns),
      hdrop, List.getLast?_append_cons]
  obtain ⟨-, hstop⟩ := hrow.getLast hlast hkind
  have hof : Node.of k ns = .branch k none n.start q (n :: rest) := by
    rw [Node.of, hdrop, hlast]
    simp only [List.head?_cons, hstop]
  have hsub : ∀ c ∈ n :: rest, c.Laid B := by
    intro c hc
    rw [← hdrop] at hc
    exact h.laid c ((List.dropWhile_sublist _).subset hc)
  have hq : B q := hstop ▸ (hsub _ (List.mem_of_getLast? hlast)).seated.stop
  rw [hof] at hif helif ⊢
  have hseated : Node.Seated B (.branch k none n.start q (n :: rest)) :=
    ⟨(hsub n List.mem_cons_self).seated.start, hq, hrow.le, ⟨q, Nat.le_refl q, hrow⟩,
      fun he => absurd (hk.symm.trans he) (by decide), hif, helif⟩
  exact single (n := .branch k none n.start q (n :: rest)) hk hp (.of hseated hsub)

theorem of_plain {k : Kind} (h : Stretch B p q ns) (hk : k.isPlain = true) :
    Stretch B p q [Node.of k ns] := by
  obtain ⟨hextra, hif, helif⟩ := Kind.isPlain_facts hk
  exact h.branch hextra (fun he => (hif he).elim) (fun he => (helif he).elim)

end Stretch

/-! ## Tokens -/

/-- What is required of one token: its offsets have the property, extras stand in front of it,
a name takes room, and two stars can be taken apart. -/
structure Token.Placed (B : Nat → Prop) (t : Token) : Prop where
  start : B t.start
  stop : B t.stop
  le : t.start ≤ t.stop
  leading : ∀ m ∈ t.leading, (m.kind.isExtra = true ∧ m.label = none) ∧ m.Laid B
  name_lt : ∀ text, t.kind = .name text → t.start < t.stop
  stars : t.kind = .mark "**" → B (t.start + 1) ∧ t.start + 1 ≤ t.stop

/-- The tokens lie one behind the other from `p` on. -/
inductive Follow (B : Nat → Prop) : Nat → List Token → Prop
  | nil (p : Nat) : Follow B p []
  | cons {p : Nat} {t : Token} {ts : List Token} (hp : p ≤ t.start) (ht : t.Placed B)
      (hts : Follow B t.stop ts) : Follow B p (t :: ts)

section Follow

variable {B : Nat → Prop} {p q : Nat} {t : Token} {ts : List Token}

theorem Follow.mono (h : Follow B q ts) (hp : p ≤ q) : Follow B p ts := by
  cases h with
  | nil => exact .nil p
  | cons hq ht hts => exact .cons (hp.trans hq) ht hts

theorem Follow.dropWhile (h : Follow B p ts) (f : Token → Bool) : Follow B p (ts.dropWhile f) := by
  induction h with
  | nil p => exact .nil p
  | @cons p t ts hp ht hts ih =>
    cases hf : f t with
    | true =>
      rw [List.dropWhile_cons_of_pos hf]
      exact ih.mono (hp.trans ht.le)
    | false =>
      rw [List.dropWhile_cons_of_neg (by simp [hf])]
      exact .cons hp ht hts

theorem Follow.leadingOf (h : Follow B p ts) :
    ∀ m ∈ Rule.leadingOf ts, (m.kind.isExtra = true ∧ m.label = none) ∧ m.Laid B := by
  induction h with
  | nil => exact fun _ hm => nomatch hm
  | cons _ ht _ ih =>
    intro m hm
    rw [Rule.leadingOf] at hm
    split at hm
    · rcases List.mem_append.mp hm with hm | hm
      · exact ht.leading m hm
      · exact ih m hm
    · exact ht.leading m hm

theorem Follow.head {t : Token} (h : Follow B p (t :: ts)) :
    p ≤ t.start ∧ t.Placed B ∧ Follow B t.stop ts := by
  cases h with
  | cons hp ht hts => exact ⟨hp, ht, hts⟩

/-- Two stars lie where the mark of both did. -/
theorem Follow.stars (h : Follow B p (t :: ts)) (hstars : t.kind = .mark "**") :
    Follow B p ({ t with kind := .mark "*", stop := t.start + 1 } ::
      ⟨.mark "*", t.start + 1, t.stop, []⟩ :: ts) := by
  obtain ⟨hp, ht, hts⟩ := h.head
  obtain ⟨hmid, hle⟩ := ht.stars hstars
  refine .cons hp ?_ (.cons (Nat.le_refl _) ?_ hts)
  · exact ⟨ht.start, hmid, Nat.le_succ _, ht.leading, nofun, by simp⟩
  · exact ⟨hmid, ht.stop, hle, nofun, nofun, by simp⟩

end Follow

namespace Token

variable {B : Nat → Prop} {p : Nat} {t : Token}

theorem kind_leaf (t : Token) : t.leaf.kind.isPlain = true ∧ t.leaf.label = none ∧
    t.leaf.start = t.start ∧ t.leaf.stop = t.stop ∧ t.leaf.children = [] := by
  unfold Token.leaf
  split <;> exact ⟨rfl, rfl, rfl, rfl, rfl⟩

theorem Placed.laid_leaf (h : t.Placed B) : t.leaf.Laid B := by
  obtain ⟨hplain, -, hstart, hstop, hnil⟩ := t.kind_leaf
  obtain ⟨-, hif, helif⟩ := Kind.isPlain_facts hplain
  refine .of ⟨?_, ?_, ?_, ⟨t.leaf.start, ?_, ?_⟩, fun _ => hnil, fun he => (hif he).elim,
    fun he => (helif he).elim⟩ (by simp [hnil])
  · rw [hstart]
    exact h.start
  · rw [hstop]
    exact h.stop
  · rw [hstart, hstop]
    exact h.le
  · rw [hstart, hstop]
    exact h.le
  · rw [hnil]
    exact .nil _

/-- What a token becomes lies where the token does, behind the extras in front of it. -/
theorem Placed.stretch {n : Node} (h : t.Placed B) (hp : p ≤ t.start) (hn : n.kind.isExtra = false)
    (hstart : n.start = t.start) (hl : n.Laid B) : Stretch B p n.stop (t.leading ++ [n]) :=
  (Stretch.single hn (hstart ▸ hp) hl).extras_append h.leading

end Token

/-! ## Rules -/

namespace Rule

variable {α β : Type} {B : Nat → Prop} {P F : Nat → Prop} {Q R : α → Nat → Prop}
  {S : β → Nat → Prop} {x y : Rule α} {k : α → Rule β} {f : α → List Node} {a : α} {b : β}
  {ts us : List Token} {t : Token} {n : Node} {ns : List Node}

theorem Reads.of_bind (h : Reads (x >>= k) ts b us) :
    ∃ a vs, Reads x ts a vs ∧ Reads (k a) vs b us := by
  rw [Reads, StateT.run_bind] at h
  obtain ⟨⟨a, vs⟩, hx, hk⟩ := Option.bind_eq_some_iff.mp h
  exact ⟨a, vs, hx, hk⟩

theorem Reads.of_orElse (h : Reads (x <|> y) ts a us) : Reads x ts a us ∨ Reads y ts a us := by
  have hrun : (x <|> y).run ts = (x.run ts <|> y.run ts) := rfl
  rw [Reads, hrun] at h
  cases hx : x.run ts with
  | some r =>
    rw [hx] at h
    exact .inl (hx.trans h)
  | none =>
    rw [hx] at h
    exact .inr h

theorem Reads.of_pure {c : α} (h : Reads (pure c) ts a us) : a = c ∧ us = ts := by
  cases h
  exact ⟨rfl, rfl⟩

/-- Begun at an offset with `P`, on tokens that lie from there on, the rule ends at an offset
with `Q`, and the tokens it leaves lie from there on. -/
def Keeps (B P : Nat → Prop) (r : Rule α) (Q : α → Nat → Prop) : Prop :=
  ∀ ⦃q ts a us⦄, P q → Follow B q ts → Reads r ts a us → ∃ q', Q a q' ∧ Follow B q' us

/-- What the rule yields has the property, wherever the tokens lie. -/
def Tells (B : Nat → Prop) (r : Rule α) (c : α → Prop) : Prop :=
  ∀ ⦃q ts a us⦄, Follow B q ts → Reads r ts a us → c a

theorem Keeps.bind_tells {c : α → Prop} (hx : Keeps B P x Q) (hc : Tells B x c)
    (hk : ∀ a, c a → Keeps B (Q a) (k a) S) : Keeps B P (x >>= k) S := by
  intro q ts b us hq hts h
  obtain ⟨a, vs, hx', hk'⟩ := h.of_bind
  obtain ⟨q', hq', hvs⟩ := hx hq hts hx'
  exact hk a (hc hts hx') hq' hvs hk'

theorem Keeps.bind (hx : Keeps B P x Q) (hk : ∀ a, Keeps B (Q a) (k a) S) :
    Keeps B P (x >>= k) S :=
  hx.bind_tells (c := fun _ => True) (fun _ _ _ _ _ _ => trivial) fun a _ => hk a

theorem Keeps.result (h : ∀ q, P q → Q a q) : Keeps B P (pure a) Q := by
  intro q ts c us hq hts hr
  obtain ⟨rfl, rfl⟩ := hr.of_pure
  exact ⟨q, h q hq, hts⟩

/-- What has been laid so far is all. -/
theorem Keeps.here (h : P = Q a) : Keeps B P (pure a) Q := .result fun _ hq => h ▸ hq

theorem Keeps.fail : Keeps B P (failure : Rule α) Q := fun _ _ _ _ _ _ h => nomatch h

theorem Keeps.fail_bind : Keeps B P ((failure : Rule α) >>= k) S :=
  Keeps.fail.bind (Q := fun _ _ => False) fun _ _ _ _ _ h => h.elim

theorem Keeps.orElse (hx : Keeps B P x Q) (hy : Keeps B P y Q) : Keeps B P (x <|> y) Q := by
  intro q ts a us hq hts h
  rcases h.of_orElse with h | h
  · exact hx hq hts h
  · exact hy hq hts h

theorem Keeps.mono (h : Keeps B P x Q) (hQ : ∀ a q, Q a q → R a q) : Keeps B P x R := by
  intro q ts a us hq hts hr
  obtain ⟨q', hq', hus⟩ := h hq hts hr
  exact ⟨q', hQ a q' hq', hus⟩

theorem Keeps.from {P' : Nat → Prop} (h : Keeps B P x Q) (hP : ∀ q, P' q → P q) :
    Keeps B P' x Q := fun _ _ _ _ hq hts hr => h (hP _ hq) hts hr

theorem Keeps.given {c : Prop} (h : c → Keeps B P x Q) : Keeps B (fun q => P q ∧ c) x Q :=
  fun _ _ _ _ ⟨hq, hc⟩ hts hr => h hc hq hts hr

/-- The rule looks ahead, or passes over line ends: it lays nothing. -/
def Stays (B : Nat → Prop) (r : Rule α) : Prop := ∀ P, Keeps B P r fun _ => P

theorem Stays.then (hx : Stays B x) (hk : ∀ a, Keeps B P (k a) S) : Keeps B P (x >>= k) S :=
  (hx P).bind hk

/-- A rule that depends on what is ahead. -/
theorem Stays.test {c : α → Bool} {r s : Rule β} (hx : Stays B x) (hr : Keeps B P r S)
    (hs : Keeps B P s S) : Keeps B P (x >>= fun a => if c a then r else s) S := by
  refine hx.then fun a => ?_
  split
  · exact hr
  · exact hs

theorem stays_get : Stays B (get : Rule (List Token)) := by
  intro P q ts a us hq hts h
  cases h
  exact ⟨q, hq, hts⟩

theorem stays_peek : Stays B peek := by
  refine fun P => stays_get.then fun ts => ?_
  cases ts with
  | nil => exact .fail
  | cons t ts => exact .result fun _ h => h

theorem stays_peekSecond? : Stays B peekSecond? := by
  refine fun P => stays_get.then fun ts => ?_
  split <;> exact .result fun _ h => h

theorem stays_atMark (text : String) : Stays B (atMark text) :=
  fun _ => stays_peek.then fun _ => .result fun _ h => h

theorem stays_atName (text : String) : Stays B (atName text) :=
  fun _ => stays_peek.then fun _ => .result fun _ h => h

theorem stays_atKind (kind : TokenKind) : Stays B (atKind kind) :=
  fun _ => stays_peek.then fun _ => .result fun _ h => h

theorem stays_skipNewlines : Stays B skipNewlines := by
  intro P q ts a us hq hts h
  cases h
  exact ⟨q, hq, hts.dropWhile _⟩

theorem stays_splitStars : Stays B splitStars := by
  intro P q ts a us hq hts h
  cases h
  refine ⟨q, hq, ?_⟩
  cases ts with
  | nil => exact .nil q
  | cons t ts =>
    by_cases hstars : t.kind = .mark "**"
    · simpa [Token.isMark, hstars] using hts.stars hstars
    · simpa [Token.isMark, hstars] using hts

/-! ### Rules that lay nodes -/

/-- The nodes reach up to `q` from an offset with `F`. -/
def Upon (B F : Nat → Prop) (ns : List Node) (q : Nat) : Prop := ∃ p, F p ∧ Stretch B p q ns

/-- The nodes reach up to `q` from an offset with `F`, if there are any. -/
def Perhaps (B F : Nat → Prop) (ns : List Node) (q : Nat) : Prop := (ns = [] ∧ F q) ∨ Upon B F ns q

theorem Perhaps.none {q : Nat} (h : F q) : Perhaps B F [] q := .inl ⟨rfl, h⟩

theorem Perhaps.upon {q : Nat} (h : Perhaps B F ns q) (hne : ns ≠ []) : Upon B F ns q :=
  h.resolve_left fun ⟨hnil, _⟩ => hne hnil

/-- Two stretches, one upon the other, are one. -/
theorem Upon.join {q : Nat} {ms : List Node} (h : Upon B (Upon B F ms) ns q) :
    Upon B F (ms ++ ns) q := by
  obtain ⟨_, ⟨p, hp, hms⟩, hns⟩ := h
  exact ⟨p, hp, hms.append hns⟩

theorem Upon.of {q : Nat} {kind : Kind} (hkind : kind.isPlain = true) (h : Upon B F ns q) :
    Upon B F [.of kind ns] q := by
  obtain ⟨p, hp, hns⟩ := h
  exact ⟨p, hp, hns.of_plain hkind⟩

/-- Wherever it is begun, the rule lays the nodes that `f` finds in what it yields. -/
def Lays (B : Nat → Prop) (f : α → List Node) (r : Rule α) : Prop :=
  ∀ F, Keeps B F r fun a => Upon B F (f a)

/-- The rule lays all that it yields. -/
abbrev LaysAll (B : Nat → Prop) (r : Rule (List Node)) : Prop := Lays B (fun ns => ns) r

/-- The rule lays the one node that it yields. -/
abbrev LaysOne (B : Nat → Prop) (r : Rule Node) : Prop := Lays B (fun n => [n]) r

/-- The rule lays what it yields, if it yields anything. -/
def LaysAny (B : Nat → Prop) (r : Rule (List Node)) : Prop := ∀ F, Keeps B F r (Perhaps B F)

/-- Begin with what the first rule lays. -/
theorem Lays.begin (hx : Lays B f x) (hk : ∀ a, Keeps B (Upon B F (f a)) (k a) S) :
    Keeps B F (x >>= k) S := (hx F).bind hk

/-- Go on with what the next rule lays. -/
theorem Lays.add {ms : List Node} (hx : Lays B f x)
    (hk : ∀ a, Keeps B (Upon B F (ms ++ f a)) (k a) S) : Keeps B (Upon B F ms) (x >>= k) S :=
  hx.begin fun a => (hk a).from fun _ => Upon.join

/-- Go on with what the next rule lays, if that is anything, and with what is known of it. -/
theorem LaysAny.add_tells {x : Rule (List Node)} {k : List Node → Rule β} {ms : List Node}
    {c : List Node → Prop} (hx : LaysAny B x) (hc : Tells B x c)
    (hk : ∀ ns, c ns → Keeps B (Upon B F (ms ++ ns)) (k ns) S) :
    Keeps B (Upon B F ms) (x >>= k) S := by
  refine (hx _).bind_tells hc fun ns hns => (hk ns hns).from fun q hq => ?_
  rcases hq with ⟨rfl, hq⟩ | hq
  · rw [List.append_nil]
    exact hq
  · exact hq.join

theorem LaysAny.add {x : Rule (List Node)} {k : List Node → Rule β} {ms : List Node}
    (hx : LaysAny B x) (hk : ∀ ns, Keeps B (Upon B F (ms ++ ns)) (k ns) S) :
    Keeps B (Upon B F ms) (x >>= k) S :=
  hx.add_tells (c := fun _ => True) (fun _ _ _ _ _ _ => trivial) fun ns _ => hk ns

/-- Begin with what the first rule lays, if that is anything. -/
theorem LaysAny.begin {x : Rule (List Node)} {k : List Node → Rule β} (hx : LaysAny B x)
    (hk : ∀ ns, Keeps B (Perhaps B F ns) (k ns) S) : Keeps B F (x >>= k) S := (hx F).bind hk

/-- Go on, or begin, with what the next rule lays. -/
theorem Lays.addTo {ms : List Node} (hx : Lays B f x)
    (hk : ∀ a, Keeps B (Upon B F (ms ++ f a)) (k a) S) : Keeps B (Perhaps B F ms) (x >>= k) S := by
  intro q ts b us hq hts h
  rcases hq with ⟨rfl, hq⟩ | hq
  · exact hx.begin (k := k) hk hq hts h
  · exact hx.add hk hq hts h

/-- A rule that may take in what was read before does without. -/
theorem laysOne_of_perhaps {r : Rule Node}
    (h : ∀ F, Keeps B (Perhaps B F []) r fun n => Upon B F [n]) : LaysOne B r :=
  fun F => (h F).from fun _ => .none

theorem LaysAll.any {x : Rule (List Node)} (hx : LaysAll B x) : LaysAny B x :=
  fun F => (hx F).mono fun _ _ => .inr

theorem Keeps.pure_bind (h : Keeps B P (k a) S) : Keeps B P (pure a >>= k) S := h

/-- A part has been laid upon what was there: go on with both. -/
theorem Keeps.join {k : List Node → Rule β} {ms : List Node}
    (h : Keeps B (Upon B F (ms ++ ns)) (k ns) S) :
    Keeps B (Upon B (Upon B F ms) ns) (pure ns >>= k) S :=
  .pure_bind (h.from fun _ => Upon.join)

/-- All nodes laid become one. -/
theorem Keeps.of {kind : Kind} (hkind : kind.isPlain = true) :
    Keeps B (Upon B F ns) (pure (.of kind ns)) fun n => Upon B F [n] :=
  .result fun _ h => h.of hkind

theorem LaysAny.none : LaysAny B (pure []) := fun _ => .result fun _ => Perhaps.none

/-- A part that depends on what is ahead. -/
theorem LaysAny.ahead {c : α → Bool} {r s : Rule (List Node)} (hx : Stays B x) (hr : LaysAny B r)
    (hs : LaysAny B s) : LaysAny B (x >>= fun a => if c a then r else s) :=
  fun F => hx.test (hr F) (hs F)

/-- Begin with a part that depends on what is ahead. -/
theorem Stays.begin {c : α → Bool} {r s : Rule (List Node)} {k : List Node → Rule β}
    (hx : Stays B x) (hr : LaysAny B r) (hs : LaysAny B s)
    (hk : ∀ ns, Keeps B (Perhaps B F ns) (k ns) S) :
    Keeps B F (x >>= fun a => if c a then r >>= k else s >>= k) S :=
  hx.test (hr.begin hk) (hs.begin hk)

/-- Go on with a part that depends on what is ahead. -/
theorem Stays.add {c : α → Bool} {r s : Rule (List Node)} {k : List Node → Rule β}
    {ms : List Node} (hx : Stays B x) (hr : LaysAny B r) (hs : LaysAny B s)
    (hk : ∀ ns, Keeps B (Upon B F (ms ++ ns)) (k ns) S) :
    Keeps B (Upon B F ms) (x >>= fun a => if c a then r >>= k else s >>= k) S :=
  hx.test (hr.add hk) (hs.add hk)

/-! ### Rules that take one token -/

theorem Reads.exists_cons_of_shift {r : List Node} (h : Reads shift ts r us) :
    ∃ t, ts = t :: us ∧ r = t.leading ++ [t.leaf] := by
  cases ts with
  | nil => cases h
  | cons t ts =>
    cases h
    exact ⟨t, rfl, rfl⟩

theorem laysAll_shift : LaysAll B shift := by
  intro F q ts a us hq hts h
  obtain ⟨t, rfl, rfl⟩ := h.exists_cons_of_shift
  obtain ⟨hp, ht, hus⟩ := hts.head
  obtain ⟨hplain, -, hstart, hstop, -⟩ := t.kind_leaf
  have hstretch := ht.stretch hp (Kind.isPlain_facts hplain).1 hstart ht.laid_leaf
  exact ⟨t.stop, ⟨q, hq, hstop ▸ hstretch⟩, hus⟩

theorem laysAll_shiftLabelled (l : Label) : LaysAll B (shiftLabelled l) := by
  intro F q ts a us hq hts h
  cases ts with
  | nil => cases h
  | cons t ts =>
    cases h
    obtain ⟨hp, ht, hus⟩ := hts.head
    obtain ⟨hplain, -, hstart, hstop, -⟩ := t.kind_leaf
    have hstretch : Stretch B q (t.leaf.labelled l).stop (t.leading ++ [t.leaf.labelled l]) := by
      refine ht.stretch hp ?_ ?_ (ht.laid_leaf.labelled l)
      · rw [Node.kind_labelled]
        exact (Kind.isPlain_facts hplain).1
      · rw [Node.start_labelled, hstart]
    rw [Node.stop_labelled, hstop] at hstretch
    exact ⟨t.stop, ⟨q, hq, hstretch⟩, hus⟩

theorem laysOne_shiftAs {kind : Kind} (hkind : kind.isPlain = true) (text : String) :
    LaysOne B (shiftAs kind text) := by
  intro F q ts a us hq hts h
  obtain ⟨hextra, hif, helif⟩ := Kind.isPlain_facts hkind
  cases ts with
  | nil => cases h
  | cons t ts =>
    cases h
    obtain ⟨hp, ht, hus⟩ := hts.head
    have hlaid : Node.Laid B (.leaf kind none t.start t.stop text) :=
      Node.laid_leaf ht.start ht.stop ht.le hif helif
    exact ⟨t.stop, ⟨q, hq, .single (n := .leaf kind none t.start t.stop text) hextra hp hlaid⟩, hus⟩

theorem laysAll_mark (text : String) : LaysAll B (mark text) :=
  fun F => stays_skipNewlines.then fun _ => (stays_atMark text).test (laysAll_shift F) .fail

theorem laysAll_keyword (text : String) : LaysAll B (keyword text) :=
  fun F => stays_skipNewlines.then fun _ => (stays_atName text).test (laysAll_shift F) .fail

theorem laysAll_token (kind : TokenKind) : LaysAll B (token kind) :=
  fun F => (stays_atKind kind).test (laysAll_shift F) .fail

theorem laysOne_identifier : LaysOne B identifier := by
  refine fun F => stays_skipNewlines.then fun _ => stays_peek.then fun t => ?_
  split
  · split
    · exact laysOne_shiftAs rfl _ F
    · exact .fail
  · exact .fail

/-! ### Rules made of others -/

/-- The extras in front of what a rule lays go with it. -/
theorem Lays.withLeading {g : List Node → α → β} {h : β → List Node} (hx : Lays B f x)
    (hg : ∀ extras a, h (g extras a) = extras ++ f a) :
    Lays B h (do let ts ← get; let a ← x; return g (leadingOf ts) a) := by
  intro F q ts b us hq hts hr
  obtain ⟨ts', vs, hget, hr⟩ := hr.of_bind
  cases hget
  obtain ⟨a, ws, hr, hret⟩ := hr.of_bind
  obtain ⟨rfl, rfl⟩ := hret.of_pure
  obtain ⟨q', ⟨p, hp, hstretch⟩, hus⟩ := hx F hq hts hr
  refine ⟨q', ⟨p, hp, ?_⟩, hus⟩
  rw [hg]
  exact hstretch.extras_append hts.leadingOf

theorem laysAll_child {r : Rule Node} (hr : LaysOne B r) : LaysAll B (child r) :=
  hr.withLeading (g := fun extras n => extras ++ [n]) fun _ _ => rfl

theorem LaysOne.labelled {r : Rule Node} (hr : LaysOne B r) (l : Label) :
    Lays B (fun n => [n.labelled l]) r :=
  fun F => (hr F).mono fun _ _ ⟨p, hp, h⟩ => ⟨p, hp, h.labelled l⟩

theorem laysAll_childAs {r : Rule Node} (hr : LaysOne B r) (l : Label) : LaysAll B (childAs l r) :=
  (hr.labelled l).withLeading (g := fun extras n => extras ++ [n.labelled l]) fun _ _ => rfl

/-- A token and a child. -/
theorem laysAll_shiftChild {r : Rule Node} (hr : LaysOne B r) :
    LaysAll B (do let first ← shift; return first ++ (← child r)) :=
  fun _ => laysAll_shift.begin fun _ => (laysAll_child hr).add fun _ => .here rfl

theorem laysAny_markThen {text : String} {r : Rule (List Node)} (hr : LaysAny B r) :
    LaysAny B (markThen text r) := by
  refine fun F => (stays_atMark text).test ?_ (LaysAny.none F)
  exact laysAll_shift.begin fun m => hr.add fun ns => .result fun _ => .inr

theorem laysAny_separated {item : Rule Node} (hitem : LaysOne B item) (isEnd : Token → Bool)
    (n : Nat) : LaysAny B (separated item isEnd n) := by
  induction n with
  | zero => exact .none
  | succ n ih =>
    refine fun F => stays_peek.test (LaysAny.none F) ?_
    refine (laysAll_child hitem).begin fun first => (stays_atMark _).test ?_ ?_
    · exact laysAll_shift.add fun comma => ih.add fun rest => .result fun _ => .inr
    · exact .result fun _ => .inr

theorem laysAny_repeated {part : Rule (List Node)} (hpart : LaysAll B part)
    (begins : Token → Bool) (n : Nat) : LaysAny B (repeated begins part n) := by
  induction n with
  | zero => exact .none
  | succ n ih =>
    refine fun F => stays_peek.test ?_ (LaysAny.none F)
    exact hpart.begin fun first => ih.add fun rest => .result fun _ => .inr

end Rule
end Foregone
