import GenericSignature.Proofs.Reading.FirstCharacter
import GenericSignature.Proofs.RoundTrip
import Mathlib.Data.List.Forall2

/-! Texts that show by themselves where they end.

A node is read from its text whatever comes next, except for the few characters by which some nodes
could be prolonged. Texts of nodes that nothing can prolong may be written one after the other, and
are told apart again.
-/

set_option autoImplicit false

namespace GenericSignature

/-- Nothing that comes after the text of a node is ever taken for a part of it. -/
def Nonterminal.delimitsItself : Nonterminal → Bool
  | .simpleClassType | .typeParameter | .classSignature | .methodSignature => false
  | _ => true

/-- The node is read from the start of the text, and exactly `rest` is left. -/
def Nonterminal.ReadsOff (symbol : Nonterminal) (text : String) (node : symbol.Node)
    (rest : String) : Prop :=
  ∃ after, symbol.production (Cursor.ofText text) = .ok node after ∧ after.remaining = rest

/-- Reads one node after the other, up to the end of the text. -/
def Nonterminal.readAll (symbol : Nonterminal) : Parser (List symbol.Node) :=
  Parser.repeatWhile (Option.isSome <$> Parser.peek) symbol.production

variable {symbol : Nonterminal} {node : symbol.Node} {text rest : String}

theorem Nonterminal.ends_of_delimitsItself (delimits : symbol.delimitsItself = true)
    (node : symbol.Node) (next : Option Char) : symbol.Ends node next := by
  cases symbol with
  | simpleClassType | typeParameter | classSignature | methodSignature => cases delimits
  | _ => trivial

theorem Nonterminal.readsOff_append (parsed : symbol.parse text = .ok node)
    (ends : symbol.Ends node rest.toList.head?) : symbol.ReadsOff (text ++ rest) node rest := by
  obtain ⟨wellFormed, rfl⟩ := wellFormed_of_parse parsed
  have split : (symbol.text node ++ rest).toList = symbol.chars node ++ rest.toList := by
    rw [String.toList_append, Nonterminal.text, String.toList_ofList]
  have yields : symbol.production.Yields 0 (symbol.chars node) rest.toList.head? (.ok node) :=
    symbol.production_recognizes.reads node _ wellFormed ends
  obtain ⟨after, ran, left, -⟩ := yields.ofText split rfl
  refine ⟨after, ran, ?_⟩
  rw [Cursor.remaining, left, String.ofList_toList]

theorem Nonterminal.eq_empty_of_parse_append {other : symbol.Node}
    (parsed : symbol.parse text = .ok node) (ends : symbol.Ends node rest.toList.head?)
    (longer : symbol.parse (text ++ rest) = .ok other) : rest = "" := by
  obtain ⟨after, ran, left⟩ := readsOff_append parsed ends
  rw [parse_of_ok ran] at longer
  split at longer
  · next atEnd => rw [← left, Cursor.remaining, atEnd, String.ofList_nil]
  · cases longer

/-! ## One text after the other -/

section Sequences

variable {α : Type} {item : Language α} {depth : Nat} {texts : List String}
  {nodes : List symbol.Node}

def Loop.untilEnd (item : Language α) : Loop α where
  item := item
  opening := []
  closing := []
  Goes next := next.isSome = true
  Joins _ _ := True

theorem Loop.chars_untilEnd (items : List α) :
    (untilEnd item).chars items = items.flatMap item.chars := by
  change (items.flatMap fun value => [] ++ item.chars value) ++ [] = _
  simp only [List.nil_append, List.append_nil]

theorem Loop.untilEnd_guardedBy :
    (untilEnd item).GuardedBy (Option.isSome <$> Parser.peek) depth where
  goes next goes := by
    have stands : next.isSome = true := goes
    have answer : (Option.isSome <$> Parser.peek).Yields depth [] next (.ok next.isSome) :=
      Parser.yields_peek.map
    rwa [stands] at answer
  stops next stops := by
    have none : next.isSome = false := Bool.eq_false_iff.mpr stops
    have answer : (Option.isSome <$> Parser.peek).Yields depth [] next (.ok next.isSome) :=
      Parser.yields_peek.map
    rwa [none] at answer
  opens _ _ := List.nil_prefix
  closes _ _ := List.nil_prefix

theorem Loop.untilEnd_lawful (nonempty : ∀ value, item.Admits value → item.chars value ≠ [])
    (ends : ∀ value next, item.Ends value next) : (untilEnd item).Lawful where
  nonempty := nonempty
  starts value admits := List.isSome_head?.mpr (nonempty value admits)
  joins _ _ _ _ := ⟨fun _ => trivial, fun _ => ends _ _⟩

def Loop.ofNodes (symbol : Nonterminal) : Loop symbol.Node :=
  untilEnd (symbol.language Cursor.maxDepth)

theorem Nonterminal.readAll_recognizes (delimits : symbol.delimitsItself = true) :
    symbol.readAll.Recognizes 0 ((Loop.ofNodes symbol).language none) :=
  Parser.repeatWhile_recognizes Loop.untilEnd_guardedBy
    (Loop.untilEnd_lawful (fun _ wellFormed => WellFormed.chars_ne_nil wellFormed)
      (ends_of_delimitsItself delimits))
    symbol.production_recognizes

theorem Nonterminal.wellFormed_of_forall₂_parse
    (parsed : List.Forall₂ (fun text node => symbol.parse text = .ok node) texts nodes) :
    (∀ node ∈ nodes, symbol.WellFormed node) ∧
      (String.join texts).toList = nodes.flatMap symbol.chars := by
  induction parsed with
  | nil => simp [String.join]
  | @cons text node texts nodes first _ ih =>
    obtain ⟨wellFormed, rfl⟩ := wellFormed_of_parse first
    refine ⟨List.forall_mem_cons.mpr ⟨wellFormed, ih.1⟩, ?_⟩
    rw [String.join_cons, String.toList_append, ih.2, Nonterminal.text, String.toList_ofList,
      List.flatMap_cons]

theorem Nonterminal.readAll_join (delimits : symbol.delimitsItself = true)
    (parsed : List.Forall₂ (fun text node => symbol.parse text = .ok node) texts nodes) :
    ∃ after, symbol.readAll (Cursor.ofText (String.join texts)) = .ok nodes after ∧
      after.remaining = "" := by
  obtain ⟨wellFormed, written⟩ := wellFormed_of_forall₂_parse parsed
  have admits : ((Loop.ofNodes symbol).language none).Admits nodes :=
    ((Loop.ofNodes symbol).language_admits_iff fun _ _ => trivial).mpr wellFormed
  have ends : ((Loop.ofNodes symbol).language none).Ends nodes none :=
    ⟨nofun, fun last _ => ends_none last⟩
  have yields : symbol.readAll.Yields 0 ((Loop.ofNodes symbol).chars nodes) none (.ok nodes) :=
    (readAll_recognizes delimits).reads nodes none admits ends
  have split : (String.join texts).toList = (Loop.ofNodes symbol).chars nodes ++ [] := by
    rw [written, Loop.ofNodes, Loop.chars_untilEnd, List.append_nil]
    rfl
  obtain ⟨after, ran, left, -⟩ := yields.ofText split rfl
  refine ⟨after, ran, ?_⟩
  rw [Cursor.remaining, left, String.ofList_nil]

end Sequences

theorem Nonterminal.texts_delimit_themselves (symbol : Nonterminal) :
    (∀ text node rest, symbol.parse text = .ok node → symbol.Ends node rest.toList.head? →
      symbol.ReadsOff (text ++ rest) node rest) ∧
    (symbol.delimitsItself = true →
      (∀ text node rest, symbol.parse text = .ok node → symbol.ReadsOff (text ++ rest) node rest) ∧
      (∀ text more node other, symbol.parse text = .ok node →
        symbol.parse (text ++ more) = .ok other → more = "") ∧
      ∀ texts nodes, List.Forall₂ (fun text node => symbol.parse text = .ok node) texts nodes →
        ∃ after, symbol.readAll (Cursor.ofText (String.join texts)) = .ok nodes after ∧
          after.remaining = "") := by
  refine ⟨fun text node rest => readsOff_append, fun delimits => ⟨?_, ?_, ?_⟩⟩
  · intro text node rest parsed
    exact readsOff_append parsed (ends_of_delimitsItself delimits node _)
  · intro text more node other parsed longer
    exact eq_empty_of_parse_append parsed (ends_of_delimitsItself delimits node _) longer
  · intro texts nodes parsed
    exact readAll_join delimits parsed

end GenericSignature
