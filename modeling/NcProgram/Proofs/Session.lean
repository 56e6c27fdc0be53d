import NcProgram.Proofs.Node.Outline
import NcProgram.Proofs.Pointing
import NcProgram.Session

namespace NcProgram

open DigitRun

theorem Text.head?_trimChars (cs : List Char) : (trimChars cs).head? = cs.find? (!isBlank ·) := by
  induction cs with
  | nil => rfl
  | cons c cs ih =>
      by_cases hblank : isBlank c = true
      · have htrim : trimChars (c :: cs) = trimChars cs := by
          rw [trimChars, List.dropWhile_cons_of_pos hblank, trimChars]
        rw [htrim, ih, List.find?_cons_of_neg (by simp [hblank])]
      · rw [trimChars, List.dropWhile_cons_of_neg hblank, List.find?_cons_of_pos (by simp [hblank]),
          List.reverse_cons, List.dropWhile_append]
        split
        · rw [List.dropWhile_cons_of_neg hblank]
          rfl
        · rw [List.reverse_concat]
          rfl

namespace Session

/-- The program text of what was typed, unless that is blank or the first character to be seen is
the slash of a command. -/
def readText? (typed : String) : Option String :=
  match (normalize typed).toList.find? (!Text.isBlank ·) with
  | none => none
  | some c => if c = '/' then none else some (programText (normalize typed))

theorem startsWith_trim_iff (text : String) : (Text.trim text).startsWith "/" = true ↔
    text.toList.find? (!Text.isBlank ·) = some '/' := by
  rw [String.startsWith_string_iff, Text.trim, String.toList_ofList, ← Text.head?_trimChars]
  cases Text.trimChars text.toList <;> simp [List.cons_prefix_cons, eq_comm]

theorem command?_eq_none_iff {text : String} {s : Session} : s.command? text = none ↔
    text.toList.find? (!Text.isBlank ·) ≠ some '/' := by
  rw [ne_eq, ← startsWith_trim_iff, command?]
  split
  next hslash =>
    simp only [hslash, not_true, iff_false]
    split <;> exact Option.some_ne_none _
  next hslash => simp [hslash]

theorem all_isBlank_iff {cs : List Char} :
    cs.all Text.isBlank = true ↔ cs.find? (!Text.isBlank ·) = none := by
  simp [List.find?_eq_none]

theorem enter_of_blank {typed : String} (h : (normalize typed).toList.all Text.isBlank = true)
    (s : Session) : s.enter typed = .ok (.empty, s) := by
  rw [enter, if_pos h]

/-- The name of the command that is typed and what is written after it, if a command is typed. -/
def commandWords? (typed : String) : Option (String × String) :=
  let line := Text.trim (normalize typed)
  if line.startsWith "/" then some (Text.splitWord line) else none

/-- What a session does at the words of a command. -/
def heed (s : Session) (words : String × String) : Output × Session :=
  match Command.ofName? words.1 with
  | some c => s.obey c words.2
  | none => (.ofErr ("Unknown command: " ++ words.1 ++ "\n"), s)

theorem command?_normalize (typed : String) (s : Session) :
    s.command? (normalize typed) = (commandWords? typed).map s.heed := by
  rw [command?, commandWords?]
  split
  · obtain ⟨name, argument⟩ := Text.splitWord (Text.trim (normalize typed))
    cases h : Command.ofName? name with
    | none => simp only [Option.map_some, heed, h]
    | some c => simp only [Option.map_some, heed, h]
  · rfl

theorem isSome_commandWords?_iff {typed : String} : (commandWords? typed).isSome = true ↔
    (normalize typed).toList.find? (!Text.isBlank ·) = some '/' := by
  rw [commandWords?, ← startsWith_trim_iff]
  split
  next hslash => simp [hslash]
  next hslash => simp [hslash]

theorem enter_of_commandWords? {typed : String} {words : String × String}
    (h : commandWords? typed = some words) (s : Session) :
    s.enter typed = .ok (s.heed words) := by
  have hfind := isSome_commandWords?_iff.mp (Option.isSome_of_eq_some h)
  have hblank : ¬ (normalize typed).toList.all Text.isBlank = true := by
    rw [all_isBlank_iff, hfind]
    exact Option.some_ne_none '/'
  rw [enter, if_neg hblank, command?_normalize, h]
  rfl

theorem readText?_eq_some_iff {typed text : String} : readText? typed = some text ↔
    ∃ c, (normalize typed).toList.find? (!Text.isBlank ·) = some c ∧ c ≠ '/' ∧
      programText (normalize typed) = text := by
  rw [readText?]
  split
  next hfind => simp [hfind]
  next c hfind => simp [hfind]

theorem enter_of_readText? {typed text : String} (h : readText? typed = some text) (s : Session) :
    s.enter typed = (s.display text).map fun output => (output, s) := by
  obtain ⟨c, hfind, hslash, rfl⟩ := readText?_eq_some_iff.mp h
  have hblank : ¬ (normalize typed).toList.all Text.isBlank = true := by
    rw [all_isBlank_iff, hfind]
    exact Option.some_ne_none c
  have hcommand : s.command? (normalize typed) = none := by
    rw [command?_eq_none_iff, hfind]
    exact fun hc => hslash (Option.some.inj hc)
  rw [enter, if_neg hblank, hcommand]

theorem typed_cases (typed : String) : (normalize typed).toList.all Text.isBlank = true ∨
    (∃ words, commandWords? typed = some words) ∨ ∃ text, readText? typed = some text := by
  cases hfind : (normalize typed).toList.find? (!Text.isBlank ·) with
  | none => exact .inl (all_isBlank_iff.mpr hfind)
  | some c =>
      right
      by_cases hslash : c = '/'
      · exact .inl (Option.isSome_iff_exists.mp (isSome_commandWords?_iff.mpr (hslash ▸ hfind)))
      · exact .inr ⟨_, readText?_eq_some_iff.mpr ⟨c, hfind, hslash, rfl⟩⟩

theorem fault?_enter (typed : String) (s : Session) :
    fault? (s.enter typed) = (readText? typed).bind fun text => fault? (s.display text) := by
  cases hread : readText? typed with
  | some text =>
      rw [enter_of_readText? hread]
      exact fault?_map _ _
  | none =>
      have hnone : ¬ ∃ text, readText? typed = some text := by simp [hread]
      rcases typed_cases typed with hblank | ⟨words, hwords⟩ | htext
      · rw [enter_of_blank hblank]
        rfl
      · rw [enter_of_commandWords? hwords]
        rfl
      · exact absurd htext hnone

theorem normalize_eq_self {text : String} (h : ∀ c ∈ text.toList, isInvisible c = false) :
    normalize text = text := by
  have hfilter : text.toList.filter (!isInvisible ·) = text.toList :=
    List.filter_eq_self.mpr fun c hc => by simp [h c hc]
  rw [normalize, hfilter, String.ofList_toList]

theorem joinContinued_eq_self {cs : List Char} (h : '\\' ∉ cs) : joinContinued cs = cs := by
  induction cs with
  | nil => rfl
  | cons c cs ih =>
      obtain ⟨hc, hcs⟩ := not_or.mp (mt List.mem_cons.mpr h)
      cases cs with
      | nil => rfl
      | cons d cs => rw [joinContinued, if_neg (fun hjoin => hc hjoin.1.symm), ih hcs]

theorem programText_eq_self {text : String} (h : '\\' ∉ text.toList) : programText text = text := by
  have hlast : text.toList.getLast? ≠ some '\\' := fun hlast => h (List.mem_of_getLast? hlast)
  rw [programText, if_neg hlast, joinContinued_eq_self h, String.ofList_toList]

/-- The first run of digits in a text that is at fault has `n` digits, which are too many. -/
def HasLongRun (text : String) (n : Nat) : Prop :=
  ∃ tree front r back, Tree.ofSource .snippet text = .ok tree ∧ tree.runs = front ++ r :: back ∧
    (∀ s ∈ front, s.IsSound) ∧ r.Raises (.digitRunTooLong n)

/-- A text holds a number that is too long: a run of digits that cannot be read, or a fraction that
cannot be written. -/
inductive Overruns (text : String) : Fault → Prop where
  | read {n : Nat} : HasLongRun text n → Overruns text (.digitRunTooLong n)
  | written {d : Document Item} {f : Field} : parseSnippet text = .ok d → f ∈ d.fields →
      f.isTooLong = true → Overruns text .numberTooLong

theorem fault?_parseSnippet (text : String) :
    fault? (parseSnippet text) = fault? (Parsed.ofSource .snippet text) :=
  (fault?_map _ _).symm

theorem parseSnippet_fault_cases {text : String} {f : Fault} (h : parseSnippet text = .error f) :
    (∃ e, f = .program e) ∨ ∃ n, f = .digitRunTooLong n ∧ HasLongRun text n := by
  rw [← fault?_eq_some_iff, fault?_parseSnippet] at h
  cases htree : Tree.ofSource .snippet text with
  | error f' =>
      rw [Parsed.fault?_ofSource_of_error htree] at h
      obtain ⟨e, rfl⟩ := Tree.exists_program_of_ofSource htree
      exact .inl ⟨e, (Option.some.inj h).symm⟩
  | ok tree =>
      obtain ⟨hruns, -⟩ := Tree.fault?_build_of_ofSource htree
      rw [Parsed.fault?_ofSource_of_ok htree] at h
      obtain ⟨front, r, back, happend, hfront, hraises⟩ :=
        exists_raises_of_firstFault? (fun r hr => (hruns r hr).2) h
      cases hraises with
      | malformed | tooLarge => exact .inl ⟨_, rfl⟩
      | tooLong hrun hlong =>
          exact .inr ⟨_, rfl, tree, front, r, back, htree, happend, hfront, .tooLong hrun hlong⟩

theorem HasLongRun.parseSnippet_eq {text : String} {n : Nat} (h : HasLongRun text n) :
    parseSnippet text = .error (.digitRunTooLong n) := by
  obtain ⟨tree, front, r, back, htree, happend, hfront, hraises⟩ := h
  obtain ⟨hruns, -⟩ := Tree.fault?_build_of_ofSource htree
  obtain ⟨f, hf, hfound⟩ :=
    exists_firstFault? (fun r hr => (hruns r hr).2) happend hfront hraises.not_isSound
  obtain rfl : f = .digitRunTooLong n := hraises.eq_of_tooLong hfound
  rw [← fault?_eq_some_iff, fault?_parseSnippet, Parsed.fault?_ofSource_of_ok htree, hf]

theorem hasLongRun_field {digits : List Char} (hdigits : ∀ c ∈ digits, c.isDigit = true)
    (hlong : Text.maxDigits < digits.length) :
    HasLongRun (String.ofList ('G' :: digits)) digits.length := by
  let p : Phrase := .number ['G'] (.whole false digits)
  let s : Script := ⟨false, [], [p], false⟩
  have hne : digits ≠ [] := List.ne_nil_of_length_pos (Nat.zero_lt_of_lt hlong)
  have hshapes : p.HasShapes :=
    List.forall_mem_cons.mpr ⟨by decide, List.forall_mem_singleton.mpr ⟨hne, hdigits⟩⟩
  have hordered : Parse.Seen.none.Ordered [.field] := by decide
  have hline : Phrase.IsLine [p] :=
    ⟨List.forall_mem_singleton.mpr hshapes, hordered, List.isChain_singleton _⟩
  have hs : s.IsScript := ⟨nofun, hline, List.isChain_nil, nofun⟩
  have htext : (String.ofList ('G' :: digits)).toList = s.chars := by
    simp [Script.chars_eq, s, p, Script.sign, Row.allLexemes, Phrase.lexemes, Numeral.lexemes,
      Numeral.sign, Numeral.run]
  obtain ⟨t, ht, htree⟩ := s.exists_snippet_tree hs rfl rfl htext
  let r : DigitRun :=
    ⟨.whole, (Numeral.run digits).token (s.lastMark.after ⟨.letters, ['G']⟩)⟩
  have hruns : t.lines.runs ++ t.lastLine.runs = [r] := by
    rw [LinesTree.runs, ht.rows, ht.last]
    rfl
  have hchars : r.chars = digits := String.toList_ofList
  have hrun : isDigitRun r.chars = true := by
    rw [hchars, isDigitRun, Bool.and_eq_true, List.all_eq_true]
    exact ⟨by simp [hne], hdigits⟩
  have hraises := Raises.tooLong hrun (hchars ▸ hlong)
  rw [hchars] at hraises
  exact ⟨_, [], r, [], htree, hruns, List.forall_mem_nil _, hraises⟩

theorem evaluate_of_error {text : String} {f : Fault} (h : parseSnippet text = .error f)
    (s : Session) : s.evaluate text = .error f := by
  rw [evaluate, h]
  rfl

theorem fault?_evaluate_of_ok {text : String} {d : Document Item} (h : parseSnippet text = .ok d)
    (s : Session) : fault? (s.evaluate text) = longFault? (d.fields.any Field.isTooLong) := by
  obtain ⟨script, hscript, hread, -, hopened, hclosed, rfl⟩ := parseSnippet_eq_ok_iff.mp h
  have hkind : DocumentKind.snippet.startPercent = script.opened := hopened.symm
  have hsource := Script.source_document hscript hread hkind hclosed.symm
  have hbind : s.evaluate text =
      (Node.ofDocument (script.document .snippet)).outline defaultIndent >>= fun outline =>
        if s.echo then do
          let source ← (Node.ofDocument (script.document .snippet)).source
          pure (outline ++ source ++ "\n")
        else pure outline := by
    rw [evaluate, h]
    rfl
  rw [hbind, ← Script.fault?_outline hscript hread .snippet defaultIndent]
  refine fault?_bind_of_ok fun outline => ?_
  split
  · rw [hsource]
    rfl
  · rfl

theorem Overruns.ne_program {text : String} {f : Fault} (h : Overruns text f) (e : ProgramError) :
    f ≠ .program e := by
  cases h <;> exact Fault.noConfusion

theorem Overruns.eq_of_error {text : String} {f f' : Fault} (h : Overruns text f)
    (herror : parseSnippet text = .error f') : f = f' := by
  cases h with
  | read hlong => exact Except.error.inj (hlong.parseSnippet_eq.symm.trans herror)
  | written hok => cases hok.symm.trans herror

theorem overruns_iff_of_ok {text : String} {d : Document Item} {f : Fault}
    (hok : parseSnippet text = .ok d) :
    Overruns text f ↔ d.fields.any Field.isTooLong = true ∧ f = .numberTooLong := by
  constructor
  · intro h
    cases h with
    | read hlong => cases hok.symm.trans hlong.parseSnippet_eq
    | written hok' hmem hlong =>
        cases hok.symm.trans hok'
        exact ⟨List.any_eq_true.mpr ⟨_, hmem, hlong⟩, rfl⟩
  · rintro ⟨hany, rfl⟩
    obtain ⟨field, hmem, hlong⟩ := List.any_eq_true.mp hany
    exact .written hok hmem hlong

theorem fault?_display_of_mistake {text : String} {e : ProgramError}
    (h : parseSnippet text = .error (.program e)) (s : Session) :
    fault? (s.display text) = none := by
  have herror : Parsed.ofSource .snippet text = .error (.program e) := by
    rw [Parsed.ofSource, h]
    rfl
  obtain ⟨shown, hshown⟩ := Parsed.exists_diagnostic herror
  rw [display, evaluate_of_error h]
  simp only [hshown]
  rfl

theorem fault?_display_of_no_mistake {text : String} {s : Session}
    (h : ∀ e, s.evaluate text ≠ .error (.program e)) :
    fault? (s.display text) = fault? (s.evaluate text) := by
  rw [display]
  split
  next hshown => rw [hshown]; rfl
  next hmistake => exact absurd hmistake (h _)
  next hfault => rw [hfault]; rfl

theorem fault?_display_eq_some_iff {text : String} {s : Session} {f : Fault} :
    fault? (s.display text) = some f ↔ Overruns text f := by
  cases hparse : parseSnippet text with
  | error f' =>
      rcases parseSnippet_fault_cases hparse with ⟨e, rfl⟩ | ⟨n, rfl, hlong⟩
      · rw [fault?_display_of_mistake hparse]
        exact ⟨nofun, fun h => absurd (h.eq_of_error hparse) (h.ne_program e)⟩
      · -- a run that is too long is no mistake of the program
        have hevaluate := evaluate_of_error hparse s
        rw [fault?_display_of_no_mistake (by simp [hevaluate]), hevaluate]
        exact ⟨fun h => Option.some.inj h ▸ .read hlong,
          fun h => congrArg some (h.eq_of_error hparse).symm⟩
  | ok d =>
      have hevaluate := fault?_evaluate_of_ok hparse s
      rw [fault?_display_of_no_mistake, hevaluate, longFault?_eq_some_iff,
        overruns_iff_of_ok hparse]
      intro e he
      cases (longFault?_eq_some_iff.mp (hevaluate.symm.trans (fault?_eq_some_iff.mpr he))).2

/-- What is typed ends a session in the fault: it is read, and holds a number that is too long. -/
def Breaks (typed : String) (f : Fault) : Prop :=
  ∃ text ∈ readText? typed, Overruns text f

/-- A step of a session ends in a fault by what is typed alone, whatever came before. -/
theorem enter_eq_error_iff {typed : String} {s : Session} {f : Fault} :
    s.enter typed = .error f ↔ Breaks typed f := by
  rw [← fault?_eq_some_iff, fault?_enter, Option.bind_eq_some_iff]
  exact exists_congr fun text => and_congr_right fun _ => fault?_display_eq_some_iff

/-- The event does not end a session. -/
def IsHarmless : PromptEvent → Prop
  | .text typed => ∀ f, ¬ Breaks typed f
  | _ => True

/-- Every event is handled, and then the end of the input. -/
structure Lasts (events : List PromptEvent) (t : Transcript) : Prop where
  harmless : ∀ event ∈ events, IsHarmless event
  fault : t.fault = none
  outputs : t.outputs.length = events.length + 1

/-- The events in front of a text are handled, and the text ends the session. -/
structure BreaksOff (front : List PromptEvent) (typed : String) (t : Transcript) : Prop where
  harmless : ∀ event ∈ front, IsHarmless event
  fault : ∃ f, t.fault = some f ∧ Breaks typed f
  outputs : t.outputs.length = front.length

/-- A session goes through all the events, or up to the first text among them that ends it. -/
def IsCourse (events : List PromptEvent) (t : Transcript) : Prop :=
  Lasts events t ∨
    ∃ front typed back, events = front ++ .text typed :: back ∧ BreaksOff front typed t

theorem IsCourse.cons {events : List PromptEvent} {t : Transcript} (h : IsCourse events t)
    {event : PromptEvent} (hevent : IsHarmless event) (output : Output) :
    IsCourse (event :: events) { t with outputs := output :: t.outputs } := by
  rcases h with hlasts | ⟨front, typed, back, rfl, hbreaks⟩
  · exact .inl ⟨List.forall_mem_cons.mpr ⟨hevent, hlasts.harmless⟩, hlasts.fault,
      congrArg Nat.succ hlasts.outputs⟩
  · exact .inr ⟨event :: front, typed, back, rfl,
      List.forall_mem_cons.mpr ⟨hevent, hbreaks.harmless⟩, hbreaks.fault,
      congrArg Nat.succ hbreaks.outputs⟩

/-- However a session starts, it goes on to the end of the input unless a number is too long. -/
theorem lasts_unless_number_too_long (s : Session) (events : List PromptEvent) :
    IsCourse (events.takeWhile (· ≠ .eof)) (s.run events) := by
  -- a text may change the session, but whether it ends it does not depend on the session
  induction events generalizing s with
  | nil => exact .inl ⟨List.forall_mem_nil _, rfl, rfl⟩
  | cons event events ih =>
      cases event with
      | eof => exact .inl ⟨List.forall_mem_nil _, rfl, rfl⟩
      | interrupt =>
          rw [List.takeWhile_cons_of_pos (by simp)]
          have hinterrupt : IsHarmless .interrupt := trivial
          exact (ih s).cons hinterrupt _
      | text typed =>
          rw [List.takeWhile_cons_of_pos (by simp), run]
          cases henter : s.enter typed with
          | error f =>
              have hbreaks := enter_eq_error_iff.mp henter
              exact .inr ⟨[], typed, _, rfl, List.forall_mem_nil _, ⟨f, rfl, hbreaks⟩, rfl⟩
          | ok result =>
              have htext : IsHarmless (.text typed) := fun f hbreaks => by
                cases henter.symm.trans (enter_eq_error_iff.mpr hbreaks)
              exact (ih result.2).cons htext result.1

/-- One field is enough, with a digit more than can be read. -/
theorem long_number_ends_session :
    ((start ⟨none, none⟩).run [.text (String.ofList ('G' :: List.replicate 4301 '1'))]).fault =
      some (.digitRunTooLong 4301) := by
  let typed := String.ofList ('G' :: List.replicate 4301 '1')
  have hchars : ∀ c ∈ typed.toList, c = 'G' ∨ c = '1' := by
    intro c hc
    rw [String.toList_ofList, List.mem_cons] at hc
    exact hc.imp_right List.eq_of_mem_replicate
  have hnormalize : normalize typed = typed :=
    normalize_eq_self fun c hc => by rcases hchars c hc with rfl | rfl <;> decide
  have hprogram : programText typed = typed :=
    programText_eq_self fun hc => by rcases hchars _ hc with h | h <;> cases h
  have hread : readText? typed = some typed := by
    rw [readText?, hnormalize, hprogram, String.toList_ofList, List.find?_cons_of_pos (by decide)]
    rfl
  have hlong : HasLongRun typed (List.replicate 4301 '1').length :=
    hasLongRun_field (fun c hc => List.eq_of_mem_replicate hc ▸ by decide) (by
      rw [List.length_replicate]
      decide)
  rw [List.length_replicate] at hlong
  have henter : (start ⟨none, none⟩).enter typed = .error (.digitRunTooLong 4301) :=
    enter_eq_error_iff.mpr ⟨typed, hread, .read hlong⟩
  rw [run, henter]

end Session

end NcProgram
