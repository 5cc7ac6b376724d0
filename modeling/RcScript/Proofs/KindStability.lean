import RcScript.Proofs.FormatStability
import RcScript.Proofs.TrailingBlanks

/-!
# Formatting and the kinds of statements

A statement that is read again from canonical text is of the kind that it was, except where a
carriage return at the end of its line comes between. A quickmark of which the URL ends in a
return is written with it, so that the return joins the terminator and the URL has one character
too few: such a valid line comes back malformed. A malformed line is written without the returns
at its end, and where what is left denotes a node it comes back as that node. No other statement
changes its kind, so the condition for all kinds to be kept is exact.
-/

namespace RcScript

open Text

/-- What settles keeps its kind. -/
theorem kind_settled (node : Node) : node.settled.kind = node.kind := by
  cases node <;> rfl

/-- A statement that is read again from canonical text as one of its kind: no URL at its end ends
in a carriage return, and a malformed line denotes nothing without the returns at its end. -/
def Node.KeepsKind (index : Nat) : Node → Prop
  | quickmark _ url => ¬ EndsInReturn url
  | malformed _ text => ∀ other, ¬ Denotes (lineText (index = 0) (trimReturns text).toList) other
  | _ => True

/-- How the statement at a place comes back from canonical text. -/
structure Node.Reread (index : Nat) (node again : Node) : Prop where
  /-- It is of the same kind exactly when nothing at the end of its line comes between. -/
  kept : again.kind = node.kind ↔ node.KeepsKind index
  /-- A quickmark of which the URL ends in a carriage return comes back malformed. -/
  broken : ∀ key url, node = .quickmark key url → EndsInReturn url → again.kind = .malformed
  /-- A malformed line comes back as what it denotes without the returns at its end. -/
  repaired : ∀ diagnostic text, node = .malformed diagnostic text →
    ∀ other, Denotes (lineText (index = 0) (trimReturns text).toList) other → again = other

/-- A node that a line denotes keeps its kind unless its canonical line ends in a return. -/
theorem keepsKind_iff_of_denotes {l : List Char} {index : Nat} {node : Node}
    (hdenotes : Denotes l node) : node.KeepsKind index ↔ ¬ EndsInReturn node.toText := by
  have hkind := Reader.kind_of_denotes hdenotes
  rw [endsInReturn_iff_of_denotes hdenotes]
  cases node with
  | quickmark key url => simp [Node.KeepsKind]
  | malformed diagnostic text => exact absurd rfl hkind
  | _ => simp [Node.KeepsKind]

/-- A URL that ends in a carriage return has it for the second character of its host. -/
theorem exists_stem_of_return {url : String} (h : Pattern.url.Lang url.toList)
    (hreturn : EndsInReturn url) : ∃ stem, IsStem stem ∧ url.toList = stem ++ ['\r'] := by
  rw [EndsInReturn] at hreturn
  rcases last_of_url h with ⟨front, last, hurl, hlast⟩ | ⟨stem, last, hstem, hurl⟩
  · rw [hurl, List.getLast?_concat, Option.some.injEq] at hreturn
    rw [hreturn] at hlast
    exact absurd hlast (by decide)
  · rw [hurl, List.getLast?_concat, Option.some.injEq] at hreturn
    exact ⟨stem, hstem, by rw [hurl, hreturn]⟩

/-- The canonical line of a quickmark loses a return at the end of the URL to its terminator, and
what is left of it stops in the host. -/
theorem exists_stopsInHost {l : List Char} {key : Char} {url : String}
    (hdenotes : Denotes l (.quickmark key url)) (hreturn : EndsInReturn url) :
    ∃ rest, (canonicalLine (.quickmark key url)).content = "quickmark".toList ++ rest ∧
      ∃ stem, StopsInHost ("quickmark".toList ++ rest) key stem := by
  cases hdenotes with
  | statement hopens hclause =>
    cases hclause with
    | quickmark hkey hurl hblanks =>
      obtain ⟨stem, hstem, htext⟩ := exists_stem_of_return (urlField_iff.mp hurl).2 hreturn
      have hline : (Node.quickmark key url).toText.toList =
          "quickmark".toList ++ trail [String.ofList [key], String.ofList stem] ++ ['\r'] := by
        have hspaced : (Node.quickmark key url).toText.toList =
            "quickmark".toList ++ trail [String.ofList [key], url] := toList_spaced _ _
        rw [hspaced]
        simp only [trail_cons, trail_nil, htext, String.toList_ofList, List.append_nil,
          List.append_assoc, List.cons_append]
      refine ⟨trail [String.ofList [key], String.ofList stem], ?_, String.ofList stem,
        trail [String.ofList [key], String.ofList stem], trail [String.ofList stem], ?_, ?_, ?_, ?_⟩
      · exact content_canonicalLine_return hline
      · exact ⟨[], blanks_nil, rfl, fieldEnd_trail _⟩
      · exact ⟨field_trail _ _, hkey.2⟩
      · exact field_trail _ []
      · rwa [String.toList_ofList]

namespace ReadAt

variable {index : Nat} {content : List Char} {node again : Node}

/-- A quickmark of which the URL ends in a carriage return is read again as malformed. -/
theorem kind_again_of_return {l : List Char} {key : Char} {url : String}
    (hdenotes : Denotes l (.quickmark key url)) (hreturn : EndsInReturn url)
    (hagain : ReadAt index (canonicalLine (.quickmark key url)).content again) :
    again.kind = .malformed := by
  obtain ⟨rest, hcontent, stem, hstops⟩ := exists_stopsInHost hdenotes hreturn
  rw [hcontent] at hagain
  have htext := lineText_of_unmarked (unmarked_literal .quickmark rest) (index = 0)
  rcases hagain.denotes_or_malformed with hother | ⟨⟨diagnostic, rfl⟩, -⟩
  · have hleft : Denotes ("quickmark".toList ++ rest) again := htext ▸ hother
    exact absurd hleft (hstops.not_denotes again)
  · rfl

/-- A node that a line denotes is read again as one of its kind exactly when it keeps its kind. -/
theorem kind_again_iff_of_denotes {l : List Char} (hdenotes : Denotes l node)
    (hagain : ReadAt index (canonicalLine node).content again) :
    again.kind = node.kind ↔ node.KeepsKind index := by
  rw [keepsKind_iff_of_denotes hdenotes]
  constructor
  · intro hkind hreturn
    obtain ⟨key, url, rfl, hurl⟩ := (endsInReturn_iff_of_denotes hdenotes).mp hreturn
    rw [kind_again_of_return hdenotes hurl hagain] at hkind
    exact StatementKind.noConfusion hkind
  · intro hreturn
    rw [again_of_denotes hdenotes hreturn hagain, kind_settled]

/-- A malformed line is read again as malformed exactly when it denotes nothing without the
returns at its end. -/
theorem kind_again_iff_of_malformed {diagnostic : Diagnostic} {text : String}
    (hagain : ReadAt index (canonicalLine (.malformed diagnostic text)).content again) :
    again.kind = .malformed ↔ (Node.malformed diagnostic text).KeepsKind index := by
  rw [content_malformed] at hagain
  constructor
  · intro hkind other hdenotes
    rw [hagain.eq_of_denotes hdenotes] at hkind
    exact Reader.kind_of_denotes hdenotes hkind
  · intro hnone
    rcases hagain.denotes_or_malformed with hdenotes | ⟨⟨found, rfl⟩, -⟩
    · exact absurd hdenotes (hnone again)
    · rfl

/-- What the canonical line of a node is read as. -/
theorem reread (hread : ReadAt index content node)
    (hagain : ReadAt index (canonicalLine node).content again) : node.Reread index again := by
  constructor
  case kept =>
    rcases hread.denotes_or_malformed with hdenotes | ⟨⟨diagnostic, rfl⟩, -⟩
    · exact kind_again_iff_of_denotes hdenotes hagain
    · exact kind_again_iff_of_malformed hagain
  case broken =>
    rintro key url rfl hreturn
    rcases hread.denotes_or_malformed with hdenotes | ⟨⟨diagnostic, he⟩, -⟩
    · exact kind_again_of_return hdenotes hreturn hagain
    · exact Node.noConfusion he
  case repaired =>
    rintro diagnostic text rfl other hdenotes
    rw [content_malformed] at hagain
    exact hagain.eq_of_denotes hdenotes

end ReadAt

namespace Program

/-- Every statement comes back from the canonical text at its place. -/
theorem exists_reread {text : String} {index : Nat} {node : Node}
    (h : (parse text).nodes[index]? = some node) :
    ∃ again, (parse (parse text).format).nodes[index]? = some again ∧ node.Reread index again := by
  obtain ⟨content, again, hread, hagain, hreadAgain⟩ := exists_again h
  exact ⟨again, hagain, hread.reread hreadAgain⟩

/-- Formatting keeps the number of statements. It keeps the kinds of all of them exactly when no
URL of a quickmark ends in a carriage return and no malformed line denotes a node without the
returns at its end, and a statement that comes back as another does so in one of two ways. -/
theorem kinds_parse_format_iff (text : String) :
    (parse (parse text).format).statements.length = (parse text).statements.length ∧
      ((parse (parse text).format).nodes.map Node.kind = (parse text).nodes.map Node.kind ↔
        ∀ (index : Nat) (node : Node), (parse text).nodes[index]? = some node →
          node.KeepsKind index) ∧
      ∀ (index : Nat) (node : Node), (parse text).nodes[index]? = some node →
        ∃ again, (parse (parse text).format).nodes[index]? = some again ∧
          node.Reread index again := by
  have hlength := length_nodes_format text
  refine ⟨?_, ?_, fun index node hnode => exists_reread hnode⟩
  · rwa [nodes, nodes, List.length_map, List.length_map] at hlength
  constructor
  · intro hkinds index node hnode
    obtain ⟨again, hagain, hreread⟩ := exists_reread hnode
    have hat := congrArg (fun kinds => kinds[index]?) hkinds
    simp only [List.getElem?_map, hnode, hagain, Option.map_some, Option.some.injEq] at hat
    exact hreread.kept.mp hat
  · intro hkeeps
    refine List.ext_getElem? fun index => ?_
    rw [List.getElem?_map, List.getElem?_map]
    cases hnode : (parse text).nodes[index]? with
    | none =>
      rw [List.getElem?_eq_none_iff] at hnode
      rw [List.getElem?_eq_none (by rw [hlength]; exact hnode)]
    | some node =>
      obtain ⟨again, hagain, hreread⟩ := exists_reread hnode
      rw [hagain, Option.map_some, Option.map_some, hreread.kept.mpr (hkeeps index node hnode)]

/-- A line that is malformed for a carriage return becomes a setting, and a quickmark with one at
the end of its URL becomes malformed. -/
theorem kinds_format_return :
    ((parse "set  x\r\r\n").nodes.map Node.kind = [.malformed] ∧
        (parse (parse "set  x\r\r\n").format).nodes.map Node.kind = [.setting]) ∧
      (parse "quickmark g http://a\r\r\n").nodes.map Node.kind = [.quickmark] ∧
        (parse (parse "quickmark g http://a\r\r\n").format).nodes.map Node.kind =
          [.malformed] := by
  decide +kernel

end Program

end RcScript
