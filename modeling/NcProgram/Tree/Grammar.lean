import NcProgram.Tree.Reader

namespace NcProgram

namespace Parse

/-- A field: letters, then text in quotes or a number. -/
def field : Parse FieldTree := do
  let letters ← expect .letters
  match ← take? .string with
  | some literal => pure (.ofParts letters (.literal literal))
  | none =>
    let minus ← take? .minus
    match ← take? .integer with
    | some integer =>
      match ← take? .dot with
      | some dot =>
        let fraction ← take? .integer
        pure (.ofParts letters (.number ⟨minus, some integer, some dot, fraction⟩))
      | none => pure (.ofParts letters (.number ⟨minus, some integer, none, none⟩))
    | none =>
      match ← take? .dot with
      | some dot =>
        let fraction ← expectOr (fun _ => .expectedFractionDigits) .integer
        pure (.ofParts letters (.number ⟨minus, none, some dot, some fraction⟩))
      | none =>
        match minus with
        | some _ => fail .expectedDigitsAfterMinus
        | none => throw (.atToken .grammar (.fieldWithoutValue letters.text) letters)

def checksum : Parse ChecksumTree := do
  let star ← expect .star
  let digits ← expectOr (fun _ => .expectedChecksumDigits) .integer
  pure ⟨star, digits, ⟨star.start, digits.stop⟩⟩

/-- The parts of a line that allow no fields after them. -/
structure Seen where
  checksum : Bool
  comment : Bool

namespace Seen

def none : Seen :=
  ⟨false, false⟩

def add (s : Seen) : ItemTree → Seen
  | .checksum _ => { s with checksum := true }
  | .trivia .comment _ => { s with comment := true }
  | _ => s

end Seen

/-- The next part of a line. No field stands behind a checksum or a comment, and a line has one
checksum, in front of its comments. -/
def lineItem (seen : Seen) : Parse ItemTree := fun r =>
  match r.current.kind with
  | .whitespace => (.trivia .whitespace <$> expect .whitespace : Parse ItemTree) r
  | .inlineComment => (.trivia .inlineComment <$> expect .inlineComment : Parse ItemTree) r
  | .letters =>
    if seen.checksum || seen.comment then fail (fun t => .lateField t.text) r
    else (.field <$> field : Parse ItemTree) r
  | .star =>
    if seen.checksum then fail (fun _ => .duplicateChecksum) r
    else if seen.comment then fail (fun _ => .checksumAfterComment) r
    else (.checksum <$> checksum : Parse ItemTree) r
  | .comment => (.trivia .comment <$> expect .comment : Parse ItemTree) r
  | _ => fail .unexpectedToken r

theorem consuming_field : Consuming field := by
  refine (consuming_expect (by decide)).bind fun letters => ?_
  refine (nonGrowing_take? _).bind fun literal => ?_
  split
  · exact nonGrowing_pure _
  refine (nonGrowing_take? _).bind fun minus => ?_
  refine (nonGrowing_take? _).bind fun integer => ?_
  split
  · refine (nonGrowing_take? _).bind fun dot => ?_
    split
    · exact (nonGrowing_take? _).bind fun fraction => nonGrowing_pure _
    · exact nonGrowing_pure _
  · refine (nonGrowing_take? _).bind fun dot => ?_
    split
    · exact (consuming_expectOr _ (by decide)).nonGrowing.bind fun fraction => nonGrowing_pure _
    · split
      · exact nonGrowing_fail _
      · intro r a r' h
        cases h

theorem consuming_checksum : Consuming checksum :=
  (consuming_expect (by decide)).bind fun _ =>
    (consuming_expectOr _ (by decide)).nonGrowing.bind fun _ => nonGrowing_pure _

theorem consuming_lineItem (seen : Seen) : Consuming (lineItem seen) := by
  intro r item r' h
  unfold lineItem at h
  split at h
  · exact (consuming_expect (by decide)).map _ _ _ _ h
  · exact (consuming_expect (by decide)).map _ _ _ _ h
  · split at h
    · cases h
    · exact consuming_field.map _ _ _ _ h
  · split at h
    · cases h
    · split at h
      · cases h
      · exact consuming_checksum.map _ _ _ _ h
  · exact (consuming_expect (by decide)).map _ _ _ _ h
  · cases h

/-- The parts of a line up to a token that belongs to no line. -/
def lineItems (seen : Seen) (r : Reader) : EStateM.Result Fault Reader (List ItemTree) :=
  if r.current.kind.endsLine then .ok [] r
  else
    match _h : lineItem seen r with
    | .error e r' => .error e r'
    | .ok item r' =>
      match lineItems (seen.add item) r' with
      | .error e r'' => .error e r''
      | .ok items r'' => .ok (item :: items) r''
termination_by r.ahead.length
decreasing_by exact consuming_lineItem seen _ _ _ _h

/-- A line. It reaches to the end of its last part; an empty one has no width. -/
def line : Parse LineTree := do
  let start := (← get).current.start
  let items ← lineItems Seen.none
  let lastEnd := (← get).lastEnd
  pure ⟨items, start, if items.isEmpty then start else lastEnd⟩

theorem nonGrowing_get : NonGrowing (get : Parse Reader) := by
  rintro r _ _ ⟨⟩
  exact Nat.le_refl _

theorem nonGrowing_lineItems (seen : Seen) : NonGrowing (lineItems seen) := by
  intro r items r' h
  fun_induction lineItems seen r generalizing items r' with
  | case1 seen r hr =>
      cases h
      exact Nat.le_refl _
  | case2 => cases h
  | case3 => cases h
  | case4 seen r hr item r₁ h₁ items' r₂ h₂ ih =>
      cases h
      exact Nat.le_trans (ih _ _ h₂) (Nat.le_of_lt (consuming_lineItem seen _ _ _ h₁))

theorem nonGrowing_line : NonGrowing line :=
  nonGrowing_get.bind fun _ => (nonGrowing_lineItems _).bind fun _ =>
    nonGrowing_get.bind fun _ => nonGrowing_pure _

/-- Lines, each up to its terminator, and the last one, which has none. -/
def linesFrom (r : Reader) : EStateM.Result Fault Reader (List (LineTree × Token) × LineTree) :=
  match _h₁ : line r with
  | .error e r₁ => .error e r₁
  | .ok first r₁ =>
    match _h₂ : take? .newline r₁ with
    | .error e r₂ => .error e r₂
    | .ok none r₂ => .ok ([], first) r₂
    | .ok (some terminator) r₂ =>
      match linesFrom r₂ with
      | .error e r₃ => .error e r₃
      | .ok (pairs, last) r₃ => .ok ((first, terminator) :: pairs, last) r₃
termination_by r.ahead.length
decreasing_by
  exact Nat.lt_of_lt_of_le (length_ahead_take? (by decide) _h₂) (nonGrowing_line _ _ _ _h₁)

/-- Terminated lines and a last line. The terminated lines reach to where the last line starts. -/
def lines : Parse (LinesTree × LineTree) := do
  let start := (← get).current.start
  let (pairs, last) ← linesFrom
  pure (⟨pairs, start, last.extent.start⟩, last)

def snippet : Parse SnippetTree := do
  let start := (← get).current.start
  let (terminated, last) ← lines
  let stop ← expectEnd
  pure ⟨terminated, last, start, stop⟩

def file : Parse FileTree := do
  let start := (← get).current.start
  let startPercent ← take? .percent
  let (terminated, last) ← lines
  let endPercent ← take? .percent
  let stop ← expectEnd
  pure ⟨startPercent, terminated, last, endPercent, start, stop⟩

def document (isSnippet : Bool) : Parse DocumentTree :=
  if isSnippet then .snippet <$> snippet else .file <$> file

def onlyLine : Parse LineTree := do
  let tree ← line
  let _ ← expectEnd
  pure tree

def rule : Rule → Parse Tree
  | .file => .document <$> document false
  | .snippet => .document <$> document true
  | .line => .line <$> onlyLine

/-- The calls that a reader answers. -/
inductive Call where
  | advance
  | check (kinds : List TokenKind)
  | take (kinds : List TokenKind)
  | expect (kind : TokenKind) (complaint : Option String)
  | mistake (text : String)
  | expectEnd
  | file
  | snippet
  | lines
  | line
  | checksum
  | field

inductive Reply where
  | passed (t : Token)
  | flag (b : Bool)
  | token (t : Option Token)
  | offset (n : Int)
  | mistake (f : Fault)
  | tree (t : Tree)
  | lines (terminated : LinesTree) (last : LineTree)
  | checksum (t : ChecksumTree)
  | field (t : FieldTree)

/-- The step that a call asks for. An empty complaint counts as none. -/
def answer : Call → Parse Reply
  | .advance => .passed <$> advance
  | .check kinds => .flag <$> check kinds
  | .take kinds => .token <$> takeAny? kinds
  | .expect kind complaint =>
    (.token ∘ some) <$>
      match complaint with
      | some text => if text.isEmpty then expect kind else expectOr (fun _ => .inWords text) kind
      | none => expect kind
  | .mistake text => fun r =>
    match Fault.atToken .grammar (.inWords text) r.current with
    | .program e => .ok (.mistake (.program e)) r
    | fault => .error fault r
  | .expectEnd => .offset <$> expectEnd
  | .file => (.tree ∘ .document) <$> document false
  | .snippet => (.tree ∘ .document) <$> document true
  | .lines => (fun (terminated, last) => .lines terminated last) <$> lines
  | .line => (.tree ∘ .line) <$> line
  | .checksum => .checksum <$> checksum
  | .field => .field <$> field

/-- What a step reads from the start of a stream. -/
def run {α : Type} (p : Parse α) (s : Stream) : Except Fault α := do
  let r ← Reader.ofStream s
  match p r with
  | .ok a _ => .ok a
  | .error e _ => .error e

end Parse

namespace Reader

/-- Perform one call. -/
def perform (r : Reader) (call : Parse.Call) : Except Fault Parse.Reply × Reader :=
  match Parse.answer call r with
  | .ok reply r' => (.ok reply, r')
  | .error e r' => (.error e, r')

end Reader

namespace Tree

/-- The tree of a token stream by the given rule. -/
def ofStream (rule : Rule) : Stream → Except Fault Tree :=
  (Parse.rule rule).run

/-- The tree of a token stream by the rule of the given name. The name is looked at only when the
first token has been read. -/
def ofStreamNamed (name : String) (s : Stream) : Except Fault Tree :=
  match Rule.ofName? name with
  | some rule => ofStream rule s
  | none => (Reader.ofStream s).bind fun _ => .error (.unknownRule name)

/-- The tree of a program's text by the given rule. -/
def ofSource (rule : Rule) (source : String) : Except Fault Tree :=
  ofStream rule (.ofSource source)

end Tree

end NcProgram
