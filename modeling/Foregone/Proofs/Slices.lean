import Mathlib.Data.List.Induction
import Mathlib.Data.List.ModifyLast
import Foregone.Proofs.GuardReports

/-! # What stands at a place

A place is given by lines and columns, so it can be looked up in the text: split the text
into lines, and keep what lies between the two ends. For a node this is the text of the node,
whatever room the characters take and however many lines it spans. -/

namespace Foregone

/-! ## Lines of a text -/

namespace Location

/-- The lines up to a place. -/
def upTo (line column : Nat) (lines : List (List Char)) : List (List Char) :=
  (lines.take line).modifyLast fun l => l.take (column - 1)

/-- The lines from a place on. -/
def onward (line column : Nat) (lines : List (List Char)) : List (List Char) :=
  (lines.drop (line - 1)).modifyHead fun l => l.drop (column - 1)

/-- What a text has at a place, from its start up to its end. -/
def slice (text : String) (l : Location) : String :=
  String.ofList (['\n'].intercalate
    (onward l.line l.column (upTo l.endLine l.endColumn (text.toList.splitOn '\n'))))

/-- Behind `front`, a text goes on in a line that begins with `last`, after the lines `done`. -/
structure Reaches (front : List Char) (done : List (List Char)) (last : List Char) : Prop where
  lines : ∀ rest, (front ++ rest).splitOn '\n' =
    done ++ (rest.splitOn '\n').modifyHead fun l => last ++ l
  count : (Utf8.bytes front).count lineEnd = done.length
  bytes : (Utf8.bytes front).reverse.takeWhile (· != lineEnd) = (Utf8.bytes last).reverse

theorem reaches_nil : Reaches [] [] [] := by
  refine ⟨fun rest => ?_, rfl, rfl⟩
  cases h : rest.splitOn '\n' <;> simp [h]

theorem encodeChar_lineEnd : String.utf8EncodeChar '\n' = [lineEnd] := by decide

/-- Only a line break has the byte that ends a line. -/
theorem ne_lineEnd {c : Char} (hc : c ≠ '\n') : ∀ b ∈ String.utf8EncodeChar c, b ≠ lineEnd := by
  intro b hb heq
  have hten : b.toNat = 10 := by
    rw [heq]
    rfl
  have hwide {n k : Nat} (hk : 0x80 ≤ k) (hsum : n + k < 256) : b ≠ UInt8.ofNat (n + k) := by
    intro hbyte
    rw [hbyte, Utf8.toNat_byte hsum] at hten
    omega
  rw [String.utf8EncodeChar, Char.toNat_val] at hb
  split at hb
  · have hbyte := List.mem_singleton.mp hb
    rw [hbyte, Utf8.toNat_byte (by omega)] at hten
    exact hc (Char.toNat_inj.mp hten)
  split at hb
  · simp only [List.mem_cons, List.not_mem_nil, or_false] at hb
    rcases hb with hb | hb <;> exact hwide (by decide) (by omega) hb
  split at hb
  · simp only [List.mem_cons, List.not_mem_nil, or_false] at hb
    rcases hb with hb | hb | hb <;> exact hwide (by decide) (by omega) hb
  · simp only [List.mem_cons, List.not_mem_nil, or_false] at hb
    rcases hb with hb | hb | hb | hb <;> exact hwide (by decide) (by omega) hb

theorem Reaches.push {front last : List Char} {done : List (List Char)}
    (h : Reaches front done last) {c : Char} (hc : c ≠ '\n') :
    Reaches (front ++ [c]) done (last ++ [c]) := by
  have hnone : lineEnd ∉ String.utf8EncodeChar c := fun hmem => ne_lineEnd hc _ hmem rfl
  refine ⟨fun rest => ?_, ?_, ?_⟩
  · rw [List.append_assoc, List.singleton_append, h.lines, List.splitOn_cons_eq_if_modifyHead,
      if_neg (by simpa using hc)]
    cases rest.splitOn '\n' <;> simp
  · rw [Utf8.bytes_append, List.count_append, h.count, Utf8.bytes_cons, Utf8.bytes_nil,
      List.append_nil, List.count_eq_zero.mpr hnone, Nat.add_zero]
  · have hall : ∀ b ∈ (String.utf8EncodeChar c).reverse, (b != lineEnd) = true := by
      intro b hb
      simpa using ne_lineEnd hc b (List.mem_reverse.mp hb)
    simp only [Utf8.bytes_append, Utf8.bytes_cons, Utf8.bytes_nil, List.append_nil,
      List.reverse_append, List.takeWhile_append_of_pos hall, h.bytes]

theorem Reaches.break {front last : List Char} {done : List (List Char)}
    (h : Reaches front done last) : Reaches (front ++ ['\n']) (done ++ [last]) [] := by
  have hbytes : Utf8.bytes (front ++ ['\n']) = Utf8.bytes front ++ [lineEnd] := by
    simp [encodeChar_lineEnd]
  refine ⟨fun rest => ?_, ?_, ?_⟩
  · rw [List.append_assoc, List.singleton_append, h.lines, List.splitOn_cons_eq_if_modifyHead,
      if_pos (by simp)]
    cases rest.splitOn '\n' <;> simp
  · rw [hbytes, List.count_append, h.count]
    simp
  · rw [hbytes, List.reverse_append]
    simp

/-- Every stretch of characters reaches some line. -/
theorem exists_reaches (front : List Char) : ∃ done last, Reaches front done last := by
  induction front using List.reverseRecOn with
  | nil => exact ⟨[], [], reaches_nil⟩
  | append_singleton front c ih =>
    obtain ⟨done, last, h⟩ := ih
    by_cases hc : c = '\n'
    · subst hc
      exact ⟨_, _, h.break⟩
    · exact ⟨_, _, h.push hc⟩

namespace Reaches

variable {front last : List Char} {done : List (List Char)}

theorem splitOn_eq (h : Reaches front done last) : front.splitOn '\n' = done ++ [last] := by
  have := h.lines []
  simpa using this

/-- Behind `front`, lines and columns are counted by what it reaches. -/
theorem place_eq (h : Reaches front done last) (rest : List Char) :
    lineAt (Utf8.bytes (front ++ rest)) (Utf8.bytes front).length = done.length + 1 ∧
      columnAt (Utf8.bytes (front ++ rest)) (Utf8.bytes front).length = last.length + 1 := by
  rw [Utf8.bytes_append, lineAt, columnAt, lineBefore, List.take_left]
  constructor
  · rw [h.count]
  · rw [h.bytes, List.reverse_reverse, Utf8.glyphs_bytes, List.length_map]

/-- Cut at the end of `front`, a text that begins with it is `front`. -/
theorem upTo_eq (h : Reaches front done last) (rest : List Char) :
    upTo (done.length + 1) (last.length + 1) ((front ++ rest).splitOn '\n') =
      front.splitOn '\n' := by
  obtain ⟨line, lines, hrest⟩ := List.exists_cons_of_ne_nil (List.splitOn_ne_nil '\n' rest)
  have htake : (done ++ (last ++ line) :: lines).take (done.length + 1) =
      done ++ [last ++ line] := by
    simp [List.take_append]
  rw [h.lines, hrest, h.splitOn_eq, upTo, List.modifyHead_cons, htake, List.modifyLast_concat]
  simp

/-- Cut off `front`, a text that begins with it is the rest. -/
theorem onward_eq (h : Reaches front done last) (rest : List Char) :
    onward (done.length + 1) (last.length + 1) ((front ++ rest).splitOn '\n') =
      rest.splitOn '\n' := by
  obtain ⟨line, lines, hrest⟩ := List.exists_cons_of_ne_nil (List.splitOn_ne_nil '\n' rest)
  rw [h.lines, hrest, onward]
  simp

/-- Where a text has ended, nothing goes on. -/
theorem onward_of_ended (h : Reaches front done last) {ended : List Char} {done' : List (List Char)}
    {last' : List Char} (h' : Reaches ended done' last') (hfront : ended <+: front) :
    ['\n'].intercalate (onward (done.length + 1) (last.length + 1) (ended.splitOn '\n')) = [] := by
  obtain ⟨beyond, rfl⟩ := hfront
  obtain ⟨line, lines, hbeyond⟩ := List.exists_cons_of_ne_nil (List.splitOn_ne_nil '\n' beyond)
  have heq : done ++ [last] = done' ++ (last' ++ line) :: lines := by
    rw [← h.splitOn_eq, h'.lines, hbeyond, List.modifyHead_cons]
  rw [h'.splitOn_eq, onward]
  cases lines with
  | nil =>
    obtain ⟨rfl, hlast⟩ := List.append_inj' heq rfl
    obtain ⟨rfl, -⟩ := List.cons.inj hlast
    simp [List.intercalate]
  | cons next lines =>
    have hlength := congrArg List.length heq
    simp only [List.length_append, List.length_cons, List.length_nil] at hlength
    rw [List.drop_eq_nil_of_le (by simp; omega)]
    rfl

end Reaches

/-! ## The text at a place -/

variable {cs front front' rest rest' : List Char}

/-- What stands between two offsets is what lies between their lines and columns. -/
theorem slice_ofBytes (h : cs = front ++ rest) (h' : cs = front' ++ rest') :
    (ofBytes (Utf8.bytes cs) (Utf8.bytes front).length (Utf8.bytes front').length).slice
        (String.ofList cs) =
      Utf8.decode (((Utf8.bytes cs).drop (Utf8.bytes front).length).take
        ((Utf8.bytes front').length - (Utf8.bytes front).length)) := by
  obtain ⟨done, last, hreach⟩ := exists_reaches front
  obtain ⟨done', last', hreach'⟩ := exists_reaches front'
  have hplace : ofBytes (Utf8.bytes cs) (Utf8.bytes front).length (Utf8.bytes front').length =
      ⟨done.length + 1, last.length + 1, done'.length + 1, last'.length + 1⟩ := by
    have hstart := hreach.place_eq rest
    have hstop := hreach'.place_eq rest'
    rw [← h] at hstart
    rw [← h'] at hstop
    rw [ofBytes, hstart.1, hstart.2, hstop.1, hstop.2]
  have hcut : upTo (done'.length + 1) (last'.length + 1) (cs.splitOn '\n') =
      front'.splitOn '\n' := by
    rw [h']
    exact hreach'.upTo_eq rest'
  rw [hplace, slice, String.toList_ofList, hcut]
  rcases List.prefix_or_prefix_of_prefix ⟨rest, h.symm⟩ ⟨rest', h'.symm⟩ with hle | hle
  · obtain ⟨middle, rfl⟩ := hle
    have htext : ((Utf8.bytes cs).drop (Utf8.bytes front).length).take
        ((Utf8.bytes (front ++ middle)).length - (Utf8.bytes front).length) =
          Utf8.bytes middle := by
      simp only [h', List.append_assoc, Utf8.bytes_append, List.drop_left, List.length_append,
        Nat.add_sub_cancel_left, List.take_left]
    rw [hreach.onward_eq, List.intercalate_splitOn, htext, Utf8.decode_bytes]
  · have hlength : (Utf8.bytes front').length ≤ (Utf8.bytes front).length := by
      obtain ⟨beyond, rfl⟩ := hle
      simp
    rw [hreach.onward_of_ended hreach' hle, Nat.sub_eq_zero_of_le hlength]
    rfl

end Location

/-- The offset lies between two characters of the text. -/
def Utf8.IsBoundary (text : String) (o : Nat) : Prop :=
  ∃ front rest, text = front ++ rest ∧ (Utf8.encode front).length = o

theorem Utf8.encode_eq_bytes (text : String) : encode text = bytes text.toList := encode_eq text

theorem Utf8.IsBoundary.exists_append {text : String} {o : Nat} (h : IsBoundary text o) :
    ∃ front rest, text.toList = front ++ rest ∧ (bytes front).length = o := by
  obtain ⟨front, rest, rfl, ho⟩ := h
  exact ⟨front.toList, rest.toList, String.toList_append, encode_eq_bytes front ▸ ho⟩

theorem Utf8.isBoundary_of_between {text : String} {o : Nat}
    (h : Glyph.Between (glyphs (encode text)) o) : IsBoundary text o := by
  obtain ⟨n, rfl⟩ := h
  refine ⟨String.ofList (text.toList.take n), String.ofList (text.toList.drop n), ?_, ?_⟩
  · rw [← String.ofList_append, List.take_append_drop, String.ofList_toList]
  · rw [encode_eq_bytes, encode_eq_bytes, glyphs_bytes, bytesOf_ofChar, String.toList_ofList]

namespace Location

variable {text : String} {tree : Node}

/-- At the place of a node stands its text. -/
theorem slice_ofNode {n : Node} (hstart : Utf8.IsBoundary text n.start)
    (hstop : Utf8.IsBoundary text n.stop) :
    (ofNode (Utf8.encode text) n).slice (Utf8.decode (Utf8.encode text)) =
      n.sourceText (Utf8.encode text) := by
  obtain ⟨front, rest, h, hfront⟩ := hstart.exists_append
  obtain ⟨front', rest', h', hfront'⟩ := hstop.exists_append
  rw [ofNode, Node.sourceText, Utf8.encode_eq_bytes, Utf8.decode_bytes, ← hfront, ← hfront']
  exact slice_ofBytes h h'

/-- A guard is that of a condition in the tree. -/
theorem exists_guardAt_of_guard {source : List UInt8} {host : Host} {s : IfStatement}
    (hs : s ∈ IfStatement.ofTree source tree host) {g : Guard} (hg : g ∈ s.guards) :
    ∃ p n r c, tree.IfAt p n ∧ n.GuardAt r c ∧ g = Guard.ofNode source c host := by
  obtain ⟨n, hn, hofNode⟩ := List.mem_filterMap.mp hs
  obtain ⟨p, hp⟩ := Node.exists_ifAt tree (List.mem_mergeSort.mp hn)
  obtain ⟨conditions, hconditions, rfl⟩ := Option.map_eq_some_iff.mp hofNode
  obtain ⟨c, hc, rfl⟩ := List.mem_map.mp hg
  obtain ⟨r, hr⟩ := Node.exists_guardAt hconditions hc
  exact ⟨p, n, r, c, hp, hr, rfl⟩

/-- All conditions of the tree begin and end between two characters of the text. -/
def Cuts (text : String) (tree : Node) : Prop :=
  ∀ p n r c, tree.IfAt p n → n.GuardAt r c →
    Utf8.IsBoundary text c.start ∧ Utf8.IsBoundary text c.stop

theorem cuts_of_isModule {B : Nat → Prop} (h : tree.IsModule B)
    (hB : ∀ o, B o → Utf8.IsBoundary text o) : Cuts text tree := by
  intro p n r c hn hc
  have hseated := ((h.laid_of_ifAt hn).of_guardAt hc).seated
  exact ⟨hB _ hseated.start, hB _ hseated.stop⟩

theorem slice_eq_text_of_cuts {host : Host} (h : Cuts text tree) {s : IfStatement}
    (hs : s ∈ IfStatement.ofTree (Utf8.encode text) tree host) {g : Guard} (hg : g ∈ s.guards) :
    g.location.slice (Utf8.decode (Utf8.encode text)) = g.text := by
  obtain ⟨p, n, r, c, hn, hc, rfl⟩ := exists_guardAt_of_guard hs hg
  obtain ⟨hstart, hstop⟩ := h p n r c hn hc
  exact slice_ofNode hstart hstop

/-- The usual host finds no conditions in a text that does not follow the grammar. -/
theorem cuts_parse_usual (text : String) : Cuts text (Host.usual.parse (Utf8.encode text)) := by
  cases hroot : Node.ofSource? (Utf8.encode text) with
  | some root =>
    rw [Host.parse_eq hroot]
    exact cuts_of_isModule (Node.isModule_ofSource? hroot) fun _ => Utf8.isBoundary_of_between
  | none =>
    rw [Host.parse, hroot]
    intro p n r c hn hc
    cases p with
    | nil =>
      obtain ⟨rfl, hk⟩ := Node.ifAt_nil.mp hn
      cases hk
    | cons i p =>
      obtain ⟨d, hd, -⟩ := Node.ifAt_cons.mp hn
      cases hd

/-- In a text, what stands at the place of a node is the text of the node. So it is for every
guard of any tree whose conditions begin and end between characters, as they do in the tree
of a module, and so for every guard of a text. -/
theorem slice_eq_text (text : String) :
    Utf8.decode (Utf8.encode text) = text ∧
    (∀ n : Node, Utf8.IsBoundary text n.start → Utf8.IsBoundary text n.stop →
      (ofNode (Utf8.encode text) n).slice (Utf8.decode (Utf8.encode text)) =
        n.sourceText (Utf8.encode text)) ∧
    (∀ s ∈ IfStatement.ofSource (Utf8.encode text), ∀ g ∈ s.guards,
      g.location.slice (Utf8.decode (Utf8.encode text)) = g.text) ∧
    (∀ (host : Host) (tree : Node), Cuts text tree →
      ∀ s ∈ IfStatement.ofTree (Utf8.encode text) tree host, ∀ g ∈ s.guards,
        g.location.slice (Utf8.decode (Utf8.encode text)) = g.text) ∧
    (∀ (B : Nat → Prop) (tree : Node), tree.IsModule B → (∀ o, B o → Utf8.IsBoundary text o) →
      Cuts text tree) := by
  refine ⟨?_, fun n => slice_ofNode, fun s hs g hg => ?_, fun host tree h s hs g hg => ?_,
    fun B tree => cuts_of_isModule⟩
  · rw [Utf8.encode_eq_bytes, Utf8.decode_bytes, String.ofList_toList]
  · exact slice_eq_text_of_cuts (cuts_parse_usual text) hs hg
  · exact slice_eq_text_of_cuts h hs hg

/-- A guard over two lines, with wide characters before it and in it. -/
theorem slice_eq_text_two_lines :
    let text := "ü = 1\nif (ä >\n  5):\n  p\n"
    let n : Node := .leaf .parenthesized none 10 20 ""
    let place : Location := ⟨2, 4, 3, 5⟩
    Utf8.IsBoundary text n.start ∧ Utf8.IsBoundary text n.stop ∧
    ofNode (Utf8.encode text) n = place ∧ n.sourceText (Utf8.encode text) = "(ä >\n  5)" ∧
    place.slice (Utf8.decode (Utf8.encode text)) = "(ä >\n  5)" ∧
    (∃ s ∈ IfStatement.ofSource (Utf8.encode text), ∃ g ∈ s.guards, g.location = place ∧
      g.location.slice (Utf8.decode (Utf8.encode text)) = g.text) := by
  intro text n place
  have hsource : Utf8.encode text = text.toList.flatMap String.utf8EncodeChar := Utf8.encode_eq text
  have hstart : Utf8.IsBoundary text n.start := by
    refine ⟨"ü = 1\nif ", "(ä >\n  5):\n  p\n", by decide, ?_⟩
    rw [Utf8.encode_eq]
    decide
  have hstop : Utf8.IsBoundary text n.stop := by
    refine ⟨"ü = 1\nif (ä >\n  5)", ":\n  p\n", by decide, ?_⟩
    rw [Utf8.encode_eq]
    decide
  have hplace : ofNode (Utf8.encode text) n = place := by
    rw [hsource]
    decide +kernel
  have htext : n.sourceText (Utf8.encode text) = "(ä >\n  5)" := by
    rw [hsource]
    decide +kernel
  have hguards : ∃ s ∈ IfStatement.ofSource (Utf8.encode text), ∃ g ∈ s.guards,
      g.location = place := by
    rw [hsource]
    decide +kernel
  obtain ⟨-, hnodes, hall, -, -⟩ := slice_eq_text text
  refine ⟨hstart, hstop, hplace, htext, ?_, ?_⟩
  · rw [← hplace, ← htext]
    exact hnodes n hstart hstop
  · obtain ⟨s, hs, g, hg, hloc⟩ := hguards
    exact ⟨s, hs, g, hg, hloc, hall s hs g hg⟩

end Location
end Foregone
