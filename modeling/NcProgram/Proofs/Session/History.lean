import NcProgram.Proofs.Session

/-!
What an event of a session leaves behind for those after it. A session remembers two things that can
be seen, whether texts are echoed and whether traces are shown, and only the command of that name
with a word that it understands changes either. Every other event can be left out, and the rest of
the session is printed as it was.
-/

namespace NcProgram

theorem Settings.showsTrace_withTrace (s : Settings) (on : Bool) :
    (s.withTrace on).showsTrace = on := by
  have hon : ["1", "true", "yes", "on"].contains (Text.lower (Text.trim "1")) = true := by
    decide +kernel
  have hoff : ["1", "true", "yes", "on"].contains (Text.lower (Text.trim "")) = false := by
    decide +kernel
  cases on with
  | false => exact hoff
  | true => exact hon

namespace Session

variable {s t next next' : Session} {output output' : Output} {typed text argument : String}
  {words : String × String} {event : PromptEvent}

/-- The words that a switch understands: those for on, those for off, and none at all. -/
def switchWords : List String :=
  ["on", "1", "true", "yes", "off", "0", "false", "no", ""]

def IsSwitchWord (argument : String) : Prop :=
  Text.lower argument ∈ switchWords

theorem toggled_eq_none_iff {current : Bool} :
    toggled argument current = none ↔ ¬ IsSwitchWord argument := by
  rw [toggled, IsSwitchWord, switchWords]
  generalize Text.lower argument = word
  have hempty : word.isEmpty = true ↔ word = "" := String.isEmpty_iff
  split
  next hon => simp at hon ⊢; tauto
  split
  next hoff => simp at hoff ⊢; tauto
  next hon hoff =>
    split
    next hword => simp [hempty.mp hword]
    next hword =>
      simp at hon hoff ⊢
      tauto

theorem IsSwitchWord.exists_toggled (h : IsSwitchWord argument) :
    ∃ on : Bool → Bool, ∀ current, toggled argument current = some (on current) := by
  have hsome (current : Bool) : ∃ on, toggled argument current = some on :=
    Option.ne_none_iff_exists'.mp fun hnone => toggled_eq_none_iff.mp hnone h
  choose on hon using hsome
  exact ⟨on, hon⟩

theorem ofName?_eq_some_iff {name : String} {c : Command} :
    Command.ofName? name = some c ↔ name = c.name := by
  constructor
  · intro h
    have hname := List.find?_some h
    exact (eq_of_beq hname).symm
  · rintro rfl
    cases c with
    | clear => rfl
    | traceback => rfl
    | echo => rfl

/-- What can be seen of a session is the same. -/
structure Agree (s t : Session) : Prop where
  echo : s.echo = t.echo
  trace : s.settings.showsTrace = t.settings.showsTrace

theorem Agree.refl (s : Session) : Agree s s :=
  ⟨rfl, rfl⟩

/-- The words of a command print the same in every session and change nothing that can be seen of
it, or they are those of a switch and set it by what it was. -/
inductive Heeded (words : String × String) : Prop where
  | plain (output : Output)
    (heed : ∀ s, (heed s words).1 = output ∧ Agree (heed s words).2 s)
  | echo (name : words.1 = "/echo") (word : IsSwitchWord words.2) (on : Bool → Bool)
    (heed : ∀ s, heed s words =
      (.ofOut ("Echo: " ++ onOff (on s.echo) ++ "\n"), { s with echo := on s.echo }))
  | traceback (name : words.1 = "/py-traceback") (word : IsSwitchWord words.2) (on : Bool → Bool)
    (heed : ∀ s, heed s words =
      (.ofOut ("Python traceback: " ++ onOff (on s.settings.showsTrace) ++ "\n"),
        { s with settings := s.settings.withTrace (on s.settings.showsTrace) }))

theorem heeded (words : String × String) : Heeded words := by
  cases hname : Command.ofName? words.1 with
  | none =>
      refine .plain (.ofErr ("Unknown command: " ++ words.1 ++ "\n")) fun s => ?_
      rw [heed, hname]
      exact ⟨rfl, .refl s⟩
  | some c =>
      have hheed (s : Session) : s.heed words = s.obey c words.2 := by rw [heed, hname]
      rw [ofName?_eq_some_iff] at hname
      cases c with
      | clear => exact .plain .empty fun s => hheed s ▸ ⟨rfl, rfl, rfl⟩
      | echo =>
          by_cases hword : IsSwitchWord words.2
          · obtain ⟨on, hon⟩ := hword.exists_toggled
            refine .echo hname hword on fun s => ?_
            rw [hheed, obey, hon]
          · refine .plain (usage .echo) fun s => ?_
            rw [hheed, obey, toggled_eq_none_iff.mpr hword]
            exact ⟨rfl, .refl s⟩
      | traceback =>
          by_cases hword : IsSwitchWord words.2
          · obtain ⟨on, hon⟩ := hword.exists_toggled
            refine .traceback hname hword on fun s => ?_
            rw [hheed, obey, hon]
            dsimp only
            rw [Settings.showsTrace_withTrace]
          · refine .plain (usage .traceback) fun s => ?_
            rw [hheed, obey, toggled_eq_none_iff.mpr hword]
            exact ⟨rfl, .refl s⟩

theorem echo_heed (h : ¬ (words.1 = "/echo" ∧ IsSwitchWord words.2)) :
    (s.heed words).2.echo = s.echo := by
  cases heeded words with
  | plain output heed => exact (heed s).2.echo
  | echo name word on heed => exact absurd ⟨name, word⟩ h
  | traceback name word on heed => rw [heed]

theorem showsTrace_heed (h : ¬ (words.1 = "/py-traceback" ∧ IsSwitchWord words.2)) :
    (s.heed words).2.settings.showsTrace = s.settings.showsTrace := by
  cases heeded words with
  | plain output heed => exact (heed s).2.trace
  | echo name word on heed => rw [heed]
  | traceback name word on heed => exact absurd ⟨name, word⟩ h

theorem echo_heed_congr (h : s.echo = t.echo) :
    (s.heed words).2.echo = (t.heed words).2.echo := by
  cases heeded words with
  | plain output heed => rw [(heed s).2.echo, (heed t).2.echo, h]
  | echo name word on heed => rw [heed, heed, h]
  | traceback name word on heed =>
      rw [heed, heed]
      exact h

theorem showsTrace_heed_congr (h : s.settings.showsTrace = t.settings.showsTrace) :
    (s.heed words).2.settings.showsTrace = (t.heed words).2.settings.showsTrace := by
  cases heeded words with
  | plain output heed => rw [(heed s).2.trace, (heed t).2.trace, h]
  | echo name word on heed =>
      rw [heed, heed]
      exact h
  | traceback name word on heed =>
      rw [heed, heed, h, Settings.showsTrace_withTrace, Settings.showsTrace_withTrace]

theorem out_heed_congr (h : s.echo = t.echo)
    (htrace : words.1 = "/py-traceback" → IsSwitchWord words.2 →
      s.settings.showsTrace = t.settings.showsTrace) :
    (s.heed words).1.out = (t.heed words).1.out := by
  cases heeded words with
  | plain output heed => rw [(heed s).1, (heed t).1]
  | echo name word on heed => rw [heed, heed, h]
  | traceback name word on heed => rw [heed, heed, htrace name word]

theorem err_heed (s t : Session) (words : String × String) :
    (s.heed words).1.err = (t.heed words).1.err := by
  cases heeded words with
  | plain output heed => rw [(heed s).1, (heed t).1]
  | echo name word on heed | traceback name word on heed =>
      rw [heed, heed]
      show "" = ""
      rfl

theorem evaluate_congr (h : s.echo = t.echo) (text : String) :
    s.evaluate text = t.evaluate text := by
  rw [evaluate, evaluate, h]

theorem fault?_evaluate_congr (s t : Session) (text : String) :
    fault? (s.evaluate text) = fault? (t.evaluate text) := by
  cases hparse : parseSnippet text with
  | error f => rw [evaluate_of_error hparse, evaluate_of_error hparse]
  | ok d => rw [fault?_evaluate_of_ok hparse, fault?_evaluate_of_ok hparse]

theorem out_append_traceHeading (shown : String) (trace : Bool) :
    (Output.ofErr shown ++ Output.traceHeading trace).out = "" :=
  String.append_empty

theorem display_cases (h : s.display text = .ok output) :
    (∃ shown, s.evaluate text = .ok shown ∧ output = .ofOut shown) ∨
      ∃ e diagnostic, s.evaluate text = .error (.program e) ∧ e.diagnostic text = .ok diagnostic ∧
        output = .ofErr (diagnostic ++ "\n") ++ .traceHeading s.settings.showsTrace := by
  rw [display] at h
  split at h
  next shown heval =>
    cases h
    exact .inl ⟨shown, heval, rfl⟩
  next e heval =>
    cases hdiagnostic : e.diagnostic text with
    | error f => cases hdiagnostic ▸ h
    | ok diagnostic =>
        rw [hdiagnostic] at h
        cases h
        exact .inr ⟨e, diagnostic, heval, hdiagnostic, rfl⟩
  next => cases h

theorem out_display_congr (hs : s.display text = .ok output) (ht : t.display text = .ok output')
    (h : s.echo = t.echo) : output.out = output'.out := by
  have heval := evaluate_congr h text
  rcases display_cases hs with ⟨shown, hshown, rfl⟩ | ⟨e, diagnostic, he, -, rfl⟩
  · rcases display_cases ht with ⟨shown', hshown', rfl⟩ | ⟨e', -, he', -⟩
    · rw [heval, hshown'] at hshown
      rw [Except.ok.inj hshown]
    · rw [heval, he'] at hshown
      cases hshown
  · rcases display_cases ht with ⟨shown', hshown', -⟩ | ⟨e', diagnostic', -, -, rfl⟩
    · rw [heval, hshown'] at he
      cases he
    · rw [out_append_traceHeading, out_append_traceHeading]

theorem err_display_congr (hs : s.display text = .ok output) (ht : t.display text = .ok output')
    (h : s.settings.showsTrace = t.settings.showsTrace) : output.err = output'.err := by
  -- echoing changes what is evaluated, but not whether there is a mistake
  have hfault := fault?_evaluate_congr s t text
  rcases display_cases hs with ⟨shown, hshown, rfl⟩ | ⟨e, diagnostic, he, hdiagnostic, rfl⟩
  · rcases display_cases ht with ⟨shown', hshown', rfl⟩ | ⟨e', -, he', -⟩
    · rfl
    · rw [hshown, he'] at hfault
      cases hfault
  · rcases display_cases ht with ⟨shown', hshown', -⟩ | ⟨e', diagnostic', he', hdiagnostic', rfl⟩
    · rw [he, hshown'] at hfault
      cases hfault
    · rw [he, he'] at hfault
      obtain rfl : e = e' := Fault.program.inj (Option.some.inj hfault)
      rw [hdiagnostic] at hdiagnostic'
      rw [Except.ok.inj hdiagnostic', h]

theorem display_of_enter (hread : readText? typed = some text)
    (h : s.enter typed = .ok (output, next)) : s.display text = .ok output ∧ next = s := by
  rw [enter_of_readText? hread] at h
  cases hdisplay : s.display text with
  | error f => cases hdisplay ▸ h
  | ok shown =>
      rw [hdisplay] at h
      cases h
      exact ⟨rfl, rfl⟩

/-- Whatever is typed in two sessions that are related leaves them related, and prints alike in
them. -/
structure IsKept (R : Session → Session → Prop) (Q : PromptEvent → Output → Output → Prop) :
    Prop where
  refl : ∀ event output, Q event output output
  enter : ∀ {typed : String} {s t next next' : Session} {output output' : Output}, R s t →
    s.enter typed = .ok (output, next) → t.enter typed = .ok (output', next') →
    R next next' ∧ Q (.text typed) output output'

theorem isKept_of {R : Session → Session → Prop} {Q : PromptEvent → Output → Output → Prop}
    (hrefl : ∀ event output, Q event output output)
    (hwords : ∀ {s t typed words}, R s t → commandWords? typed = some words →
      R (s.heed words).2 (t.heed words).2 ∧ Q (.text typed) (s.heed words).1 (t.heed words).1)
    (htext : ∀ {s t typed text output output'}, R s t → s.display text = .ok output →
      t.display text = .ok output' → Q (.text typed) output output') : IsKept R Q := by
  refine ⟨hrefl, ?_⟩
  intro typed s t next next' output output' hR hs ht
  rcases typed_cases typed with hblank | ⟨words, hw⟩ | ⟨text, hread⟩
  · rw [enter_of_blank hblank] at hs ht
    cases hs
    cases ht
    exact ⟨hR, hrefl _ _⟩
  · rw [enter_of_commandWords? hw] at hs ht
    have hkept := hwords hR hw
    rw [Except.ok.inj hs, Except.ok.inj ht] at hkept
    exact hkept
  · obtain ⟨hs, rfl⟩ := display_of_enter hread hs
    obtain ⟨ht, rfl⟩ := display_of_enter hread ht
    exact ⟨hR, htext hR hs ht⟩

theorem isKept_all : IsKept Agree fun _ output output' => output = output' := by
  have hext {a b : Output} (hout : a.out = b.out) (herr : a.err = b.err) : a = b := by
    cases a
    cases b
    exact congrArg₂ Output.mk hout herr
  refine isKept_of (fun _ _ => rfl) (fun hagree _ => ⟨⟨?_, ?_⟩, ?_⟩) fun hagree hs ht => ?_
  · exact echo_heed_congr hagree.echo
  · exact showsTrace_heed_congr hagree.trace
  · exact hext (out_heed_congr hagree.echo fun _ _ => hagree.trace) (err_heed _ _ _)
  · exact hext (out_display_congr hs ht hagree.echo) (err_display_congr hs ht hagree.trace)

/-- The event is the command of the name, with a word that a switch understands. -/
def IsSwitch (name : String) : PromptEvent → Prop
  | .text typed => ∃ argument, commandWords? typed = some (name, argument) ∧ IsSwitchWord argument
  | _ => False

theorem isSwitch_iff {name name' : String} (h : commandWords? typed = some (name', argument)) :
    IsSwitch name (.text typed) ↔ name' = name ∧ IsSwitchWord argument := by
  simp only [IsSwitch, h, Option.some.injEq, Prod.mk.injEq]
  constructor
  · rintro ⟨argument', ⟨rfl, rfl⟩, hword⟩
    exact ⟨rfl, hword⟩
  · rintro ⟨rfl, hword⟩
    exact ⟨argument, ⟨rfl, rfl⟩, hword⟩

theorem isKept_out : IsKept (fun s t => s.echo = t.echo) fun event output output' =>
    ¬ IsSwitch "/py-traceback" event → output.out = output'.out := by
  refine isKept_of (fun _ _ _ => rfl) (fun hecho hw => ⟨echo_heed_congr hecho, fun hevent => ?_⟩)
    fun hecho hs ht _ => out_display_congr hs ht hecho
  rw [isSwitch_iff hw] at hevent
  exact out_heed_congr hecho fun hname hword => absurd ⟨hname, hword⟩ hevent

theorem isKept_err : IsKept (fun s t => s.settings.showsTrace = t.settings.showsTrace)
    fun _ output output' => output.err = output'.err :=
  isKept_of (fun _ _ => rfl) (fun htrace _ => ⟨showsTrace_heed_congr htrace, err_heed _ _ _⟩)
    fun htrace hs ht => err_display_congr hs ht htrace

/-- A session handles the event, prints something and goes on as another one. -/
inductive Handles (s : Session) : PromptEvent → Output → Session → Prop where
  | interrupt : Handles s .interrupt (.ofOut "KeyboardInterrupt\n") s
  | text {typed : String} {output : Output} {next : Session} :
    s.enter typed = .ok (output, next) → Handles s (.text typed) output next

/-- The event does not end a session. -/
def GoesOn (event : PromptEvent) : Prop :=
  ∃ s output next, Handles s event output next

theorem run_of_handles (h : s.Handles event output next) (events : List PromptEvent) :
    s.run (event :: events) =
      { next.run events with outputs := output :: (next.run events).outputs } := by
  cases h with
  | interrupt => rfl
  | text h => rw [run, h]

/-- An event is handled in every session, or it ends each of them in the same way. -/
theorem handles_or_ends (event : PromptEvent) :
    (∀ s, ∃ output next, Handles s event output next) ∨
      ¬ GoesOn event ∧ ∃ outputs fault, outputs.length ≤ 1 ∧
        ∀ s events, run s (event :: events) = ⟨outputs, fault, s⟩ := by
  cases event with
  | interrupt => exact .inl fun s => ⟨_, s, .interrupt⟩
  | eof =>
      refine .inr ⟨?_, [.ofOut "\n"], none, le_rfl, fun _ _ => rfl⟩
      rintro ⟨s, output, next, h⟩
      cases h
  | text typed =>
      by_cases hbreaks : ∃ f, Breaks typed f
      · obtain ⟨f, hbreaks⟩ := hbreaks
        have henter (s : Session) : s.enter typed = .error f := enter_eq_error_iff.mpr hbreaks
        refine .inr ⟨?_, [], some f, Nat.zero_le 1, fun s events => by rw [run, henter]⟩
        rintro ⟨s, output, next, h⟩
        cases h with
        | text h => cases (henter s).symm.trans h
      · refine .inl fun s => ?_
        cases henter : s.enter typed with
        | error f => exact absurd ⟨f, enter_eq_error_iff.mp henter⟩ hbreaks
        | ok result => exact ⟨result.1, result.2, .text henter⟩

theorem GoesOn.exists_handles (h : GoesOn event) (s : Session) :
    ∃ output next, s.Handles event output next := by
  rcases handles_or_ends event with hall | ⟨hends, -⟩
  · exact hall s
  · exact absurd h hends

theorem IsKept.of_handles {R : Session → Session → Prop}
    {Q : PromptEvent → Output → Output → Prop} (h : IsKept R Q) (hR : R s t)
    (hs : s.Handles event output next) (ht : t.Handles event output' next') :
    R next next' ∧ Q event output output' := by
  cases hs with
  | interrupt =>
      cases ht with
      | interrupt => exact ⟨hR, h.refl _ _⟩
  | text hs =>
      cases ht with
      | text ht => exact h.enter hR hs ht

theorem fault_run_congr (s t : Session) (events : List PromptEvent) :
    (s.run events).fault = (t.run events).fault := by
  induction events generalizing s t with
  | nil => rfl
  | cons event events ih =>
      rcases handles_or_ends event with hall | ⟨-, outputs, fault, -, hends⟩
      · obtain ⟨output, next, hs⟩ := hall s
        obtain ⟨output', next', ht⟩ := hall t
        rw [run_of_handles hs, run_of_handles ht]
        exact ih next next'
      · rw [hends, hends]

theorem fault_run_without (h : GoesOn event) (s : Session) (front back : List PromptEvent) :
    (s.run (front ++ back)).fault = (s.run (front ++ event :: back)).fault := by
  induction front generalizing s with
  | nil =>
      obtain ⟨output, next, hs⟩ := h.exists_handles s
      rw [List.nil_append, List.nil_append, run_of_handles hs]
      exact fault_run_congr s next back
  | cons first front ih =>
      rw [List.cons_append, List.cons_append]
      rcases handles_or_ends first with hall | ⟨-, outputs, fault, -, hends⟩
      · obtain ⟨output, next, hs⟩ := hall s
        rw [run_of_handles hs, run_of_handles hs]
        exact ih next
      · rw [hends, hends]

/-- The events that are handled, each with what is printed at it. -/
def record (s : Session) (events : List PromptEvent) : List (PromptEvent × Output) :=
  (events ++ [PromptEvent.eof]).zip (s.run events).outputs

theorem record_of_handles (h : s.Handles event output next) (events : List PromptEvent) :
    s.record (event :: events) = (event, output) :: next.record events := by
  rw [record, run_of_handles h]
  rfl

theorem record_of_ends {outputs : List Output} {fault : Option Fault} (hlength : outputs.length ≤ 1)
    (hends : ∀ s events, run s (event :: events) = ⟨outputs, fault, s⟩) (s : Session)
    (events : List PromptEvent) : s.record (event :: events) = outputs.map (event, ·) := by
  rw [record, hends]
  cases outputs with
  | nil => rfl
  | cons output rest =>
      obtain rfl : rest = [] := by simpa using hlength
      simp

theorem map_snd_record (s : Session) (events : List PromptEvent) :
    (s.record events).map Prod.snd = (s.run events).outputs := by
  induction events generalizing s with
  | nil => rfl
  | cons event events ih =>
      rcases handles_or_ends event with hall | ⟨-, outputs, fault, hlength, hends⟩
      · obtain ⟨output, next, hs⟩ := hall s
        rw [record_of_handles hs, run_of_handles hs, List.map_cons, ih]
      · rw [record_of_ends hlength hends, hends, List.map_map]
        exact List.map_id outputs

/-- The records of the same events, with outputs that are related. -/
def AreAlike (Q : PromptEvent → Output → Output → Prop)
    (record record' : List (PromptEvent × Output)) : Prop :=
  List.Forall₂ (fun p p' => p.1 = p'.1 ∧ Q p.1 p.2 p'.2) record record'

section

variable {R : Session → Session → Prop} {Q : PromptEvent → Output → Output → Prop}

theorem IsKept.areAlike_self (h : IsKept R Q) (record : List (PromptEvent × Output)) :
    AreAlike Q record record :=
  List.forall₂_same.mpr fun p _ => ⟨rfl, h.refl p.1 p.2⟩

theorem IsKept.areAlike_record (h : IsKept R Q) (hR : R s t) (events : List PromptEvent) :
    AreAlike Q (s.record events) (t.record events) := by
  induction events generalizing s t with
  | nil => exact h.areAlike_self _
  | cons event events ih =>
      rcases handles_or_ends event with hall | ⟨-, outputs, fault, hlength, hends⟩
      · obtain ⟨output, next, hs⟩ := hall s
        obtain ⟨output', next', ht⟩ := hall t
        obtain ⟨hnext, hQ⟩ := h.of_handles hR hs ht
        rw [record_of_handles hs, record_of_handles ht]
        exact .cons ⟨rfl, hQ⟩ (ih hnext)
      · rw [record_of_ends hlength hends, record_of_ends hlength hends]
        exact h.areAlike_self _

/-- An event that leaves related sessions behind can be taken out of a record. -/
theorem IsKept.areAlike_without (h : IsKept R Q) (hgoes : GoesOn event)
    (hevent : ∀ s output next, Handles s event output next → R s next) (s : Session)
    (front back : List PromptEvent) :
    AreAlike Q (s.record (front ++ back))
      ((s.record (front ++ event :: back)).eraseIdx front.length) := by
  induction front generalizing s with
  | nil =>
      obtain ⟨output, next, hs⟩ := hgoes.exists_handles s
      rw [List.nil_append, List.nil_append, record_of_handles hs]
      exact h.areAlike_record (hevent s output next hs) back
  | cons first front ih =>
      rw [List.cons_append, List.cons_append, List.length_cons]
      rcases handles_or_ends first with hall | ⟨-, outputs, fault, hlength, hends⟩
      · obtain ⟨output, next, hs⟩ := hall s
        rw [record_of_handles hs, record_of_handles hs, List.eraseIdx_cons_succ]
        exact .cons ⟨rfl, h.refl _ _⟩ (ih next)
      · -- the session has ended before the event
        have hshort : (outputs.map (first, ·)).length ≤ front.length + 1 := by
          rw [List.length_map]
          exact hlength.trans (Nat.le_add_left 1 _)
        rw [record_of_ends hlength hends, record_of_ends hlength hends,
          List.eraseIdx_of_length_le hshort]
        exact h.areAlike_self _

end

theorem next_of_handles (h : s.Handles event output next) : next = s ∨
    ∃ typed words, event = .text typed ∧ commandWords? typed = some words ∧
      next = (s.heed words).2 := by
  cases h with
  | interrupt => exact .inl rfl
  | @text typed _ _ h =>
      rcases typed_cases typed with hblank | ⟨words, hw⟩ | ⟨text, hread⟩
      · rw [enter_of_blank hblank] at h
        cases h
        exact .inl rfl
      · rw [enter_of_commandWords? hw] at h
        exact .inr ⟨typed, words, rfl, hw, by rw [Except.ok.inj h]⟩
      · exact .inl (display_of_enter hread h).2

theorem echo_of_handles (h : s.Handles event output next) (hevent : ¬ IsSwitch "/echo" event) :
    s.echo = next.echo := by
  rcases next_of_handles h with rfl | ⟨typed, words, rfl, hw, rfl⟩
  · rfl
  · rw [isSwitch_iff hw] at hevent
    exact (echo_heed hevent).symm

theorem showsTrace_of_handles (h : s.Handles event output next)
    (hevent : ¬ IsSwitch "/py-traceback" event) :
    s.settings.showsTrace = next.settings.showsTrace := by
  rcases next_of_handles h with rfl | ⟨typed, words, rfl, hw, rfl⟩
  · rfl
  · rw [isSwitch_iff hw] at hevent
    exact (showsTrace_heed hevent).symm

/-- Nothing is left behind by an interrupt, by a blank text, by a command that clears the screen, is
unknown or has a word that a switch does not understand, and by a text that is read and does not end
the session. -/
inductive IsPassing : PromptEvent → Prop where
  | interrupt : IsPassing .interrupt
  | blank {typed : String} : (normalize typed).toList.all Text.isBlank = true →
    IsPassing (.text typed)
  | clear {typed argument : String} : commandWords? typed = some ("/clear", argument) →
    IsPassing (.text typed)
  | unknown {typed name argument : String} : commandWords? typed = some (name, argument) →
    name ∉ ["/clear", "/py-traceback", "/echo"] → IsPassing (.text typed)
  | usage {typed name argument : String} : commandWords? typed = some (name, argument) →
    name ∈ ["/py-traceback", "/echo"] → ¬ IsSwitchWord argument → IsPassing (.text typed)
  | text {typed text : String} : readText? typed = some text → GoesOn (.text typed) →
    IsPassing (.text typed)

theorem commandWords?_eq_none_iff : commandWords? typed = none ↔
    (normalize typed).toList.find? (!Text.isBlank ·) ≠ some '/' := by
  rw [ne_eq, ← isSome_commandWords?_iff, Option.not_isSome_iff_eq_none]

theorem commandWords?_of_blank (h : (normalize typed).toList.all Text.isBlank = true) :
    commandWords? typed = none := by
  rw [commandWords?_eq_none_iff, all_isBlank_iff.mp h]
  simp

theorem commandWords?_of_readText? (h : readText? typed = some text) :
    commandWords? typed = none := by
  obtain ⟨c, hfind, hslash, -⟩ := readText?_eq_some_iff.mp h
  rw [commandWords?_eq_none_iff, hfind]
  exact fun hc => hslash (Option.some.inj hc)

theorem not_isSwitch_of_none {name : String} (h : commandWords? typed = none) :
    ¬ IsSwitch name (.text typed) := by
  rintro ⟨argument, hw, -⟩
  cases h.symm.trans hw

theorem goesOn_of_commandWords? (h : commandWords? typed = some words) : GoesOn (.text typed) :=
  ⟨start ⟨none, none⟩, _, _, .text (enter_of_commandWords? h _)⟩

/-- Nothing is left behind by the events that neither end a session nor are switches. -/
theorem isPassing_iff : IsPassing event ↔
    GoesOn event ∧ ¬ IsSwitch "/echo" event ∧ ¬ IsSwitch "/py-traceback" event := by
  constructor
  · intro h
    cases h with
    | interrupt => exact ⟨⟨start ⟨none, none⟩, _, _, .interrupt⟩, id, id⟩
    | blank hblank =>
        have hnone := commandWords?_of_blank hblank
        exact ⟨⟨start ⟨none, none⟩, _, _, .text (enter_of_blank hblank _)⟩,
          not_isSwitch_of_none hnone, not_isSwitch_of_none hnone⟩
    | clear hw =>
        rw [isSwitch_iff hw, isSwitch_iff hw]
        exact ⟨goesOn_of_commandWords? hw, by simp, by simp⟩
    | unknown hw hname =>
        rw [isSwitch_iff hw, isSwitch_iff hw]
        refine ⟨goesOn_of_commandWords? hw, ?_, ?_⟩
        · rintro ⟨rfl, -⟩
          exact hname (by simp)
        · rintro ⟨rfl, -⟩
          exact hname (by simp)
    | usage hw hname hword =>
        rw [isSwitch_iff hw, isSwitch_iff hw]
        exact ⟨goesOn_of_commandWords? hw, fun h => hword h.2, fun h => hword h.2⟩
    | text hread hgoes =>
        have hnone := commandWords?_of_readText? hread
        exact ⟨hgoes, not_isSwitch_of_none hnone, not_isSwitch_of_none hnone⟩
  · rintro ⟨hgoes, hecho, htrace⟩
    cases event with
    | interrupt => exact .interrupt
    | eof =>
        obtain ⟨s, output, next, h⟩ := hgoes
        cases h
    | text typed =>
        rcases typed_cases typed with hblank | ⟨⟨name, argument⟩, hw⟩ | ⟨text, hread⟩
        · exact .blank hblank
        · rw [isSwitch_iff hw] at hecho htrace
          by_cases hname : name ∈ ["/py-traceback", "/echo"]
          · refine .usage hw hname fun hword => ?_
            rcases List.mem_pair.mp hname with rfl | rfl
            · exact htrace ⟨rfl, hword⟩
            · exact hecho ⟨rfl, hword⟩
          · by_cases hclear : name = "/clear"
            · exact .clear (hclear ▸ hw)
            · exact .unknown hw (by simp_all)
        · exact .text hread hgoes

/-- What the other events of a session print without the event. -/
structure LeavesOnlySwitches (s : Session) (front : List PromptEvent) (event : PromptEvent)
    (back : List PromptEvent) : Prop where
  passing : IsPassing event → GoesOn event ∧ (s.run (front ++ back)).outputs =
    (s.run (front ++ event :: back)).outputs.eraseIdx front.length
  echo : GoesOn event → ¬ IsSwitch "/echo" event →
    AreAlike (fun other output output' =>
        ¬ IsSwitch "/py-traceback" other → output.out = output'.out)
      (s.record (front ++ back)) ((s.record (front ++ event :: back)).eraseIdx front.length)
  traceback : GoesOn event → ¬ IsSwitch "/py-traceback" event →
    AreAlike (fun _ output output' => output.err = output'.err)
      (s.record (front ++ back)) ((s.record (front ++ event :: back)).eraseIdx front.length)
  fault : GoesOn event →
    (s.run (front ++ back)).fault = (s.run (front ++ event :: back)).fault

theorem IsPassing.outputs_without (h : IsPassing event) (s : Session)
    (front back : List PromptEvent) : (s.run (front ++ back)).outputs =
      (s.run (front ++ event :: back)).outputs.eraseIdx front.length := by
  obtain ⟨hgoes, hecho, htrace⟩ := isPassing_iff.mp h
  have halike := isKept_all.areAlike_without hgoes
    (fun _ _ _ hs => ⟨echo_of_handles hs hecho, showsTrace_of_handles hs htrace⟩) s front back
  have hrecord : s.record (front ++ back) =
      (s.record (front ++ event :: back)).eraseIdx front.length := by
    rw [← List.forall₂_eq_eq_eq]
    exact halike.imp fun p p' hp => Prod.ext hp.1 hp.2
  rw [← map_snd_record, hrecord, ← List.eraseIdx_map, map_snd_record]

/-- A session forgets what is typed, but for what its switches are set to. -/
theorem events_leave_only_switches (s : Session) (front : List PromptEvent) (event : PromptEvent)
    (back : List PromptEvent) : LeavesOnlySwitches s front event back := by
  refine ⟨fun h => ⟨(isPassing_iff.mp h).1, h.outputs_without s front back⟩,
    fun hgoes hecho => ?_, fun hgoes htrace => ?_,
    fun hgoes => fault_run_without hgoes s front back⟩
  · exact isKept_out.areAlike_without hgoes (fun _ _ _ hs => echo_of_handles hs hecho) s front back
  · exact isKept_err.areAlike_without hgoes (fun _ _ _ hs => showsTrace_of_handles hs htrace)
      s front back

theorem events_leave_only_switches_mistake :
    let s := start ⟨none, none⟩
    IsPassing (.text "@") ∧
      (s.run [.text "/py-traceback on", .text "@"]).outputs =
        (s.run [.text "/py-traceback on", .text "@", .text "@"]).outputs.eraseIdx 1 := by
  intro s
  have henter : s.enter "@" = .ok (⟨"",
      "error: Unexpected character '@'\n  --> line 1, col 1\n1 | @\n    ^\n"⟩, s) := by
    decide +kernel
  have hread : readText? "@" = some "@" := by decide +kernel
  have hpassing : IsPassing (.text "@") := .text hread ⟨s, _, s, .text henter⟩
  have hleaves := events_leave_only_switches s [.text "/py-traceback on"] (.text "@") [.text "@"]
  exact ⟨hpassing, (hleaves.passing hpassing).2⟩

end Session

end NcProgram
