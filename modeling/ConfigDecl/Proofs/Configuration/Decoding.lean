import ConfigDecl.Proofs.Configuration.Refinement
import ConfigDecl.Proofs.Output.Decoding

/-! # Reading configurations back

A line tells its kind, its name and its value, and where it ends, so that a
configuration can be read back line by line to what the document declared, even
when its texts hold line breaks and look like lines themselves. -/

set_option autoImplicit false

namespace ConfigDecl.Configuration

open Output
open Text (Stops stops_nil stops_cons takeWhile_append_of_stops dropWhile_append_of_stops)

/-- What the line at the front of the text declares, and what comes after it. -/
def decodeDeclaration (chars : List Char) : Option (Resolved × List Char) :=
  let name := String.ofList (chars.takeWhile Char.isAlphanum)
  let assigned := chars.dropWhile Char.isAlphanum
  match after? constantAssign assigned with
  | some literal =>
      (decodeValue literal.length literal).bind fun (value, ending) =>
        (after? constantEnd ending).map fun rest => (⟨.constant, name, value⟩, rest)
  | none =>
      (after? dictionaryArrow assigned).bind fun literal =>
        (decodeValue literal.length literal).map fun (value, rest) =>
          (⟨.dictionary, name, value⟩, rest)

def decodeLines : Nat → List Char → Option (List Resolved)
  | 0, _ => none
  | fuel + 1, chars =>
      (decodeDeclaration chars).bind fun (declared, ending) =>
        match ending with
        | [] => some [declared]
        | _ :: _ =>
            (after? "\n" ending).bind fun next =>
              (decodeLines fuel next).map (declared :: ·)

/-- What a configuration declares, in order. -/
def decode (out : String) : Option (List Resolved) :=
  if out = "" then some [] else decodeLines out.length out.toList

/-- What can be read back from its line. -/
structure Legible (declared : Resolved) : Prop where
  named : isIdent declared.name = true
  keys : declared.value.KeysAreIdents
  quoteFree : declared.value.QuoteFree

def Resolved.ownLine (declared : Resolved) : String := declared.line declared.value.literal

variable {declared : Resolved}

theorem length_le_length_toList_append (text : String) (rest : List Char) :
    text.length ≤ (text.toList ++ rest).length := by
  rw [List.length_append, String.length_toList]
  exact Nat.le_add_right _ _

theorem after?_assign_arrow (rest : List Char) :
    after? constantAssign (dictionaryArrow.toList ++ rest) = none := by
  simp [after?, constantAssign, dictionaryArrow, List.isPrefixOf?]

theorem decodeDeclaration_append (legible : Legible declared) {rest : List Char}
    (stops : Stops isNumeral rest) :
    decodeDeclaration (declared.ownLine.toList ++ rest) = some (declared, rest) := by
  obtain ⟨kind, name, value⟩ := declared
  obtain ⟨named, keys, quoteFree⟩ := legible
  have alphanum := isAlphanum_of_mem_ident named
  cases kind with
  | constant =>
      have nameStops (more : List Char) :
          Stops Char.isAlphanum (constantAssign.toList ++ more) := stops_cons (by decide)
      have valueStops (more : List Char) :
          Stops isNumeral (constantEnd.toList ++ more) := stops_cons (by decide)
      rw [Resolved.ownLine, Resolved.line]
      simp only [String.toList_append, List.append_assoc]
      rw [decodeDeclaration, takeWhile_append_of_stops alphanum (nameStops _),
        dropWhile_append_of_stops alphanum (nameStops _)]
      simp only [after?_append]
      rw [decodeValue_append value _ _ keys quoteFree
        (length_le_length_toList_append _ _) (valueStops rest)]
      simp [after?_append]
  | dictionary =>
      have nameStops (more : List Char) :
          Stops Char.isAlphanum (dictionaryArrow.toList ++ more) := stops_cons (by decide)
      rw [Resolved.ownLine, Resolved.line]
      simp only [String.toList_append, List.append_assoc]
      rw [decodeDeclaration, takeWhile_append_of_stops alphanum (nameStops _),
        dropWhile_append_of_stops alphanum (nameStops _)]
      simp only [after?_assign_arrow, after?_append, Option.bind_some]
      rw [decodeValue_append value _ _ keys quoteFree
        (length_le_length_toList_append _ _) stops]
      simp

theorem length_ownLine_pos (declared : Resolved) : 0 < declared.ownLine.length := by
  obtain ⟨kind, name, value⟩ := declared
  cases kind with
  | constant =>
      have length : constantAssign.length = 4 := by decide
      simp only [Resolved.ownLine, Resolved.line, String.length_append]
      omega
  | dictionary =>
      have length : dictionaryArrow.length = 4 := by decide
      simp only [Resolved.ownLine, Resolved.line, String.length_append]
      omega

def textOf (declared : List Resolved) : String := joinLines (declared.map Resolved.ownLine)

theorem textOf_singleton (last : Resolved) : textOf [last] = last.ownLine := by
  rw [textOf, joinLines, List.map_singleton, String.intercalate_singleton]

theorem textOf_cons_cons (first next : Resolved) (rest : List Resolved) :
    textOf (first :: next :: rest) = first.ownLine ++ "\n" ++ textOf (next :: rest) :=
  String.intercalate_cons_cons

theorem length_textOf_pos (first : Resolved) (rest : List Resolved) :
    0 < (textOf (first :: rest)).length := by
  have firstLength := length_ownLine_pos first
  cases rest with
  | nil => rwa [textOf_singleton]
  | cons next rest =>
      rw [textOf_cons_cons, String.length_append, String.length_append]
      omega

theorem decodeLines_textOf (first : Resolved) (rest : List Resolved) (fuel : Nat)
    (legible : ∀ declared ∈ first :: rest, Legible declared)
    (enough : (textOf (first :: rest)).length ≤ fuel) :
    decodeLines fuel (textOf (first :: rest)).toList = some (first :: rest) := by
  have firstLegible : Legible first := legible first (by simp)
  have length := length_textOf_pos first rest
  induction rest generalizing first fuel with
  | nil =>
      cases fuel with
      | zero => omega
      | succ fuel =>
          have read := decodeDeclaration_append firstLegible stops_nil
          rw [List.append_nil] at read
          rw [textOf_singleton, decodeLines, read]
          rfl
  | cons next rest ih =>
      have laterLegible : ∀ declared ∈ next :: rest, Legible declared :=
        fun declared member => legible declared (by simp [member])
      rw [textOf_cons_cons, String.length_append, String.length_append] at enough
      have breakLength : "\n".length = 1 := by decide
      cases fuel with
      | zero => omega
      | succ fuel =>
          have later := ih next fuel laterLegible (by omega) (laterLegible next (by simp))
            (length_textOf_pos next rest)
          have stops : Stops isNumeral ("\n".toList ++ (textOf (next :: rest)).toList) :=
            stops_cons (by decide)
          rw [textOf_cons_cons, String.toList_append, String.toList_append, List.append_assoc,
            decodeLines, decodeDeclaration_append firstLegible stops, Option.bind_some]
          have read := after?_append "\n" (textOf (next :: rest)).toList
          have ending : "\n".toList ++ (textOf (next :: rest)).toList =
              '\n' :: (textOf (next :: rest)).toList := rfl
          rw [ending] at read ⊢
          simp only [read, later, Option.bind_some, Option.map_some]

theorem decode_textOf (declared : List Resolved)
    (legible : ∀ one ∈ declared, Legible one) : decode (textOf declared) = some declared := by
  cases declared with
  | nil => rfl
  | cons first rest =>
      have length := length_textOf_pos first rest
      have nonempty : textOf (first :: rest) ≠ "" := by
        intro empty
        rw [empty] at length
        cases length
      rw [decode, if_neg nonempty]
      exact decodeLines_textOf first rest _ legible le_rfl

/-! ## Documents -/

/-- No text in a value that the run declares contains a quote. -/
def Run.QuoteFree (run : Run) : Prop := ∀ declared ∈ run.declared, declared.value.QuoteFree

theorem textOf_of_putsOut {doc : Document} {decls : List Declaration} {items : List Item}
    (puts : List.Forall₂ (PutsOut doc) decls items) :
    joinLines (items.map Prod.snd) = textOf (items.map Prod.fst) := by
  rw [textOf, List.map_map]
  refine congrArg joinLines ?_
  induction puts with
  | nil => rfl
  | @cons decl item decls items first _ ih =>
      obtain ⟨_, line⟩ := lineOf_iff.1 first.2
      rw [List.map_cons, List.map_cons, ih, line]
      rfl

theorem legible_of_declares {doc : Document} {decls : List Declaration}
    {declared : List Resolved}
    (each : List.Forall₂ (fun decl one => Declares (decl.scope doc) decl one) decls declared)
    (quoteFree : ∀ one ∈ declared, one.value.QuoteFree) : ∀ one ∈ declared, Legible one := by
  induction each with
  | nil =>
      intro one member
      cases member
  | @cons decl first decls later declares _ ih =>
      have laterLegible := ih fun one member => quoteFree one (by simp [member])
      intro one member
      rcases List.mem_cons.mp member with rfl | inside
      · exact ⟨declares.named, declares.keys, quoteFree one (by simp)⟩
      · exact laterLegible one inside

/-- A run that puts everything out has declared what the declarations declare. -/
theorem declares_run {doc : Document} {out : String} (has : ofDocument doc = .ok out) :
    List.Forall₂ (fun decl one => Declares (decl.scope doc) decl one)
        (declarations doc) (run doc).declared ∧
      out = textOf (run doc).declared := by
  obtain ⟨items, all, declared, rfl⟩ := ofDocument_eq_ok_iff_putOutAll.1 has
  have puts := (putOutAll_declarations_iff doc items).1 all
  rw [declared]
  refine ⟨?_, textOf_of_putsOut puts⟩
  refine List.forall₂_map_right_iff.2 (puts.imp ?_)
  rintro decl item ⟨declares, _⟩
  exact declares

theorem decode_of_quoteFree {doc : Document} {out : String} (has : ofDocument doc = .ok out)
    (quoteFree : (run doc).QuoteFree) : decode out = some (run doc).declared := by
  obtain ⟨each, rfl⟩ := declares_run has
  exact decode_textOf _ (legible_of_declares each quoteFree)

/-- As long as no text contains a quote, a configuration can be read back to
what its document declares; documents with equal configurations declare the
same, and values with equal literals are equal. -/
theorem decode_ofDocument :
    (∀ (doc : Document) (out : String), ofDocument doc = .ok out →
      List.Forall₂ (fun decl declared => Declares (decl.scope doc) decl declared)
          (declarations doc) (run doc).declared ∧
        ((run doc).QuoteFree → decode out = some (run doc).declared)) ∧
    (∀ (doc other : Document) (out : String),
      ofDocument doc = .ok out → ofDocument other = .ok out →
      (run doc).QuoteFree → (run other).QuoteFree → (run doc).declared = (run other).declared) ∧
    ∀ (a b : Value) (text : String), a.render = .ok text → b.render = .ok text →
      a.QuoteFree → b.QuoteFree → a = b := by
  refine ⟨?_, ?_, ?_⟩
  · intro doc out has
    exact ⟨(declares_run has).1, decode_of_quoteFree has⟩
  · intro doc other out has otherHas quoteFree otherQuoteFree
    have read := decode_of_quoteFree has quoteFree
    rw [decode_of_quoteFree otherHas otherQuoteFree] at read
    exact (Option.some.inj read).symm
  · intro a b text aRendered bRendered aQuoteFree bQuoteFree
    obtain ⟨aIdents, aLiteral⟩ := Value.render_eq_ok_iff.1 aRendered
    obtain ⟨bIdents, bLiteral⟩ := Value.render_eq_ok_iff.1 bRendered
    exact literal_injective aIdents bIdents aQuoteFree bQuoteFree (aLiteral.symm.trans bLiteral)

/-- Texts that hold line breaks, delimiters and whole lines. -/
def misleading : Document where
  constants :=
    [⟨some "x", some (.string (some "1;\ny is 2;"))⟩,
      ⟨some "n", some (.number (some "-7"))⟩]
  dictionaries :=
    [⟨some "d",
      [⟨some "a", some (.string (some "@.\nb -> 1.\n\x7d"))⟩,
        ⟨some "b", some (.dictionary [⟨some "c", some (.number (some "+1"))⟩])⟩]⟩,
      ⟨some "e", []⟩]

theorem decode_misleading :
    let out := "x is @\"1;\ny is 2;\";\nn is -7;\nd -> \x7b\na -> @\"@.\nb -> 1.\n\x7d\".\n" ++
      "b -> \x7b\nc -> 1.\n\x7d.\n\x7d\ne -> \x7b\n\x7d"
    ofDocument misleading = .ok out ∧
      decode out =
        some [⟨.constant, "x", .text "1;\ny is 2;"⟩, ⟨.constant, "n", .integer (-7)⟩,
          ⟨.dictionary, "d", .dictionary ⟨[("a", .text "@.\nb -> 1.\n\x7d"),
            ("b", .dictionary ⟨[("c", .integer 1)]⟩)]⟩⟩,
          ⟨.dictionary, "e", .dictionary ⟨[]⟩⟩] := by
  intro out
  have has : ofDocument misleading = .ok out := rfl
  have declared : (run misleading).declared =
      [⟨.constant, "x", .text "1;\ny is 2;"⟩, ⟨.constant, "n", .integer (-7)⟩,
        ⟨.dictionary, "d", .dictionary ⟨[("a", .text "@.\nb -> 1.\n\x7d"),
          ("b", .dictionary ⟨[("c", .integer 1)]⟩)]⟩⟩,
        ⟨.dictionary, "e", .dictionary ⟨[]⟩⟩] := rfl
  have quoteFree : (run misleading).QuoteFree := by
    rw [Run.QuoteFree, declared]
    decide
  refine ⟨has, ?_⟩
  rw [← declared]
  exact (decode_ofDocument.1 misleading out has).2 quoteFree

end ConfigDecl.Configuration
