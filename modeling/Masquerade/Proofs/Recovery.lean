/-
  Masquerade.Proofs.Recovery — WHAT PARSING GIVES BACK.

  Where every byte of a description is fixed or handed in
  (`Element.given`), generation takes values off the front of the argument
  queue and parsing puts them back at its end, each as the byte it denotes.
  So the two are inverse: the arguments parsed from a word generate that
  word again, and the word generated from arguments is parsed back into
  them.

  One generation that succeeds is enough to know all of them
  (`Spelled`): the word it yields is generated from exactly the queues that
  begin with values denoting certain bytes, and those bytes are what parsing
  the word returns.

  Main results:
    * `Element.spelled_of_generate`, `spelled_of_generateRun`,
      `Part.spelled_of_yields`, `spelled_of_spellParts` — what was generated
      is known in full, from one byte to a whole description.
    * `Script.parse_inverts_generate` — parsing and generation are inverse.
-/
import Masquerade.Proofs.Following
import Masquerade.Proofs.Language

namespace Masquerade

/-! ## §1. Words and the bytes handed in for them -/

/-- **Values denote bytes:** each has a byte view, and these are the views. -/
def Arguments.Denote (args : Arguments) (bytes : Bytes) : Prop :=
  args.map Value.toByte? = bytes.map some

/-- Bytes denote themselves. -/
theorem Arguments.denote_bytes (bytes : Bytes) : Denote (bytes.map Value.byte) bytes := by
  show (bytes.map Value.byte).map Value.toByte? = _
  rw [List.map_map]
  rfl

theorem Arguments.Denote.append {args args' : Arguments} {bytes bytes' : Bytes}
    (h : args.Denote bytes) (h' : args'.Denote bytes') :
    Arguments.Denote (args ++ args') (bytes ++ bytes') := by
  show (args ++ args').map Value.toByte? = (bytes ++ bytes').map some
  rw [List.map_append, List.map_append, h, h']

/-- Values that denote bytes in two pieces are in two pieces themselves. -/
theorem Arguments.Denote.split {args : Arguments} {bytes bytes' : Bytes}
    (h : args.Denote (bytes ++ bytes')) :
    ∃ first second : Arguments, args = first ++ second ∧ first.Denote bytes
      ∧ second.Denote bytes' := by
  have hmap : args.map Value.toByte? = bytes.map some ++ bytes'.map some := by
    rw [← List.map_append]
    exact h
  obtain ⟨first, second, hargs, hfirst, hsecond⟩ := List.map_eq_append_iff.mp hmap
  exact ⟨first, second, hargs, hfirst, hsecond⟩

/-- One byte is denoted by one value. -/
theorem Arguments.denote_singleton (args : Arguments) (byte : UInt8) :
    args.Denote [byte] ↔ ∃ value, args = [value] ∧ value.toByte? = some byte := by
  unfold Denote
  simp only [List.map_cons, List.map_nil, List.map_eq_singleton_iff]

/-- A byte is taken off the front of the queue if one is denoted there. -/
theorem Arguments.popByte_eq_ok_iff (args left : Arguments) (byte : UInt8) :
    args.popByte = (.ok byte, left) ↔ ∃ value, args = value :: left ∧ value.toByte? = some byte := by
  cases args with
  | nil => simp [popByte]
  | cons value rest =>
      simp only [popByte, List.cons.injEq]
      cases hbyte : value.toByte? with
      | none =>
          simp only [Prod.mk.injEq, reduceCtorEq, false_and, false_iff, not_exists]
          rintro _ ⟨⟨rfl, -⟩, hsome⟩
          simp [hbyte] at hsome
      | some front =>
          simp only [Prod.mk.injEq, Except.ok.injEq]
          constructor
          · rintro ⟨rfl, rfl⟩
            exact ⟨value, ⟨rfl, rfl⟩, hbyte⟩
          · rintro ⟨_, ⟨rfl, rfl⟩, hsome⟩
            simp_all

/-- **What generation of a word takes:** it succeeds on exactly the queues
    that begin with values denoting these bytes, and takes just those. -/
def Takes {β : Type} (generate : Supply → Except PatternError β × Supply) (vars : Variables)
    (result : β) (after : Variables) (bytes : Bytes) : Prop :=
  ∀ (args : Arguments) (draws : Draws) (s : Supply),
    generate ⟨args, vars, draws⟩ = (.ok result, s) ↔
      ∃ values left : Arguments, args = values ++ left ∧ values.Denote bytes
        ∧ s = ⟨left, after, draws⟩

/-- **What parsing of a word gives back:** these bytes, at the end of the
    queue. -/
def Gives (parse : Bytes → Arguments → Variables → Parsed) (vars : Variables) (word : Bytes)
    (after : Variables) (bytes : Bytes) : Prop :=
  ∀ (rest : Bytes) (args : Arguments),
    parse (word ++ rest) args vars = ⟨rest, args ++ bytes.map Value.byte, after⟩

/-- Where generation is the same, it takes the same. -/
theorem Takes.congr {β : Type} {generate generate' : Supply → Except PatternError β × Supply}
    {vars after : Variables} {result : β} {bytes : Bytes}
    (h : Takes generate vars result after bytes)
    (hsame : ∀ args draws, generate' ⟨args, vars, draws⟩ = generate ⟨args, vars, draws⟩) :
    Takes generate' vars result after bytes := by
  intro args draws s
  rw [hsame]
  exact h args draws s

/-- Nothing is taken for nothing. -/
theorem Takes.pure {β : Type} (result : β) (vars : Variables) :
    Takes (fun s => (.ok result, s)) vars result vars [] := by
  intro args draws s
  constructor
  · intro h
    exact ⟨[], args, rfl, rfl, (Prod.mk.inj h).2.symm⟩
  · rintro ⟨values, left, rfl, hdenote, rfl⟩
    have hnone : values = [] := List.map_eq_nil_iff.mp hdenote
    subst hnone
    rfl

/-- **One step after another** takes what the two take. -/
theorem Takes.bind {β γ δ : Type} {first : Supply → Except PatternError β × Supply}
    {second : Supply → Except PatternError γ × Supply}
    {whole : Supply → Except PatternError δ × Supply} {b : β} {c : γ} {d : δ}
    (hwhole : ∀ s s'', whole s = (.ok d, s'') ↔
      ∃ s', first s = (.ok b, s') ∧ second s' = (.ok c, s''))
    {vars between after : Variables} {bytes bytes' : Bytes}
    (hfirst : Takes first vars b between bytes) (hsecond : Takes second between c after bytes') :
    Takes whole vars d after (bytes ++ bytes') := by
  intro args draws s
  rw [hwhole]
  constructor
  · rintro ⟨s', hb, hc⟩
    obtain ⟨values, left, rfl, hdenote, rfl⟩ := (hfirst args draws s').mp hb
    obtain ⟨values', left', rfl, hdenote', rfl⟩ := (hsecond left draws s).mp hc
    exact ⟨values ++ values', left', (List.append_assoc ..).symm, hdenote.append hdenote', rfl⟩
  · rintro ⟨values, left, rfl, hdenote, rfl⟩
    obtain ⟨values₁, values₂, rfl, hdenote₁, hdenote₂⟩ := hdenote.split
    refine ⟨⟨values₂ ++ left, between, draws⟩, ?_, ?_⟩
    · exact (hfirst _ draws _).mpr ⟨values₁, _, List.append_assoc .., hdenote₁, rfl⟩
    · exact (hsecond _ draws _).mpr ⟨values₂, left, rfl, hdenote₂, rfl⟩

/-! ## §2. Elements -/

namespace Element

/-- Whether the byte of an element is written in it or handed in. -/
def bare : Element → Bool
  | .fixed _ | .enumerated _ => true
  | _ => false

/-- **The same, under one name at most.** -/
def given : Element → Bool
  | .producer _ value => value.bare
  | element => element.bare

/-- The bytes that have to be handed in for a byte of an element. -/
def asks : Element → UInt8 → Bytes
  | .enumerated _, byte => [byte]
  | .producer _ value, byte => value.asks byte
  | _, _ => []

theorem allow_eq_ok_iff (options : List UInt8) (outcome : Except PatternError UInt8)
    (byte : UInt8) : allow options outcome = .ok byte ↔ outcome = .ok byte ∧ byte ∈ options := by
  cases outcome with
  | error e => simp [allow]
  | ok front =>
      by_cases hmem : front ∈ options
      · simp only [allow, if_pos hmem, Except.ok.injEq]
        exact ⟨fun heq => ⟨heq, heq ▸ hmem⟩, And.left⟩
      · simp only [allow, if_neg hmem, reduceCtorEq, Except.ok.injEq, false_iff, not_and]
        exact fun heq => heq ▸ hmem

/-- A chosen byte takes a value that denotes it. -/
theorem takes_enumerated {options : List UInt8} {byte : UInt8} (h : byte ∈ options)
    (vars : Variables) : Takes (generate (.enumerated options)) vars byte vars [byte] := by
  intro args draws s
  show (allow options args.popByte.1, (⟨args.popByte.2, vars, draws⟩ : Supply)) = _ ↔ _
  rw [Prod.mk.injEq, allow_eq_ok_iff]
  constructor
  · rintro ⟨⟨hout, -⟩, rfl⟩
    obtain ⟨value, hargs, hbyte⟩ := (args.popByte_eq_ok_iff args.popByte.2 byte).mp (Prod.ext hout rfl)
    exact ⟨[value], _, hargs, (Arguments.denote_singleton _ _).mpr ⟨value, rfl, hbyte⟩, rfl⟩
  · rintro ⟨values, left, rfl, hdenote, rfl⟩
    obtain ⟨value, rfl, hbyte⟩ := (Arguments.denote_singleton _ _).mp hdenote
    have hpop := (Arguments.popByte_eq_ok_iff ([value] ++ left) left byte).mpr ⟨value, rfl, hbyte⟩
    rw [hpop]
    exact ⟨⟨rfl, h⟩, rfl⟩

/-- A byte under a name takes what it takes without one. -/
theorem takes_producer {value : Element} {vars between : Variables} {byte : UInt8} {bytes : Bytes}
    (h : Takes value.generate vars byte between bytes) (name : String) :
    Takes (generate (.producer name value)) vars byte (between.set name (Value.ofByte byte))
      bytes := by
  intro args draws s
  constructor
  · intro hgen
    rw [generate] at hgen
    split at hgen
    next front s' hvalue =>
      obtain ⟨hfront, rfl⟩ := Prod.mk.inj hgen
      obtain rfl : front = byte := Except.ok.inj hfront
      obtain ⟨values, left, hargs, hdenote, rfl⟩ := (h args draws s').mp hvalue
      exact ⟨values, left, hargs, hdenote, rfl⟩
    next => simp at hgen
  · rintro ⟨values, left, hargs, hdenote, rfl⟩
    have hvalue := (h args draws _).mpr ⟨values, left, hargs, hdenote, rfl⟩
    rw [generate, hvalue]

/-- A byte that fits an element without a name takes what it asks for, and
    parsing it gives that back. -/
theorem spelled_of_bare {element : Element} (hbare : element.bare = true) {byte : UInt8}
    {vars after : Variables} (h : element.check byte vars = some after) :
    Takes element.generate vars byte after (element.asks byte)
      ∧ ∀ args, element.absorb byte args vars
        = (args ++ (element.asks byte).map Value.byte, after) := by
  cases element with
  | fixed expected =>
      rw [check] at h
      split at h
      next heq =>
        obtain rfl : vars = after := Option.some.inj h
        subst heq
        refine ⟨Takes.pure byte vars, ?_⟩
        intro args
        show (args, vars) = (args ++ [], vars)
        rw [List.append_nil]
      next => simp at h
  | enumerated options =>
      rw [check] at h
      split at h
      next hmem =>
        obtain rfl : vars = after := Option.some.inj h
        exact ⟨takes_enumerated hmem vars, fun _ => rfl⟩
      next => simp at h
  | _ => simp [bare] at hbare

/-- Of the elements without a name, the chosen ones ask for their byte. -/
theorem push_of_bare {value : Element} (hbare : value.bare = true) (byte : UInt8)
    (args : Arguments) :
    (if value.isChoice then args.push (.byte byte) else args)
      = args ++ (value.asks byte).map Value.byte := by
  cases value with
  | fixed expected => exact (List.append_nil args).symm
  | enumerated options => rfl
  | _ => simp [bare] at hbare

/-- **A byte that fits takes what it asks for**, and parsing it gives that
    back. -/
theorem spelled_of_check {element : Element} (hgiven : element.given = true) {byte : UInt8}
    {vars after : Variables} (h : element.check byte vars = some after) :
    Takes element.generate vars byte after (element.asks byte)
      ∧ ∀ args, element.absorb byte args vars
        = (args ++ (element.asks byte).map Value.byte, after) := by
  cases element with
  | producer name value =>
      obtain ⟨between, hvalue, rfl⟩ := Option.map_eq_some_iff.mp h
      obtain ⟨htakes, habsorb⟩ := spelled_of_bare hgiven hvalue
      refine ⟨takes_producer htakes name, ?_⟩
      intro args
      -- the name is written over what the inner element leaves, which is nothing new
      have hsame : between = vars := by
        cases value <;> simp_all [given, bare, check]
      rw [absorb, push_of_bare hgiven, hsame]
      rfl
  | _ =>
      refine spelled_of_bare ?_ h
      exact hgiven

end Element

/-! ## §3. Runs and parts -/

/-- **A run that was generated** takes certain bytes, and parsing it gives
    them back. -/
theorem spelled_of_generateRun (run : List Element) :
    (∀ element ∈ run, element.given = true) →
    ∀ {s after : Supply} {word : Bytes}, generateRun .strict run s = (.ok word, after) →
      ∃ bytes, Takes (generateRun .strict run) s.vars word after.vars bytes
        ∧ Gives (parseRun run) s.vars word after.vars bytes := by
  induction run with
  | nil =>
      intro _ s after word h
      obtain ⟨hword, rfl⟩ := Prod.mk.inj h
      obtain rfl : [] = word := Except.ok.inj hword
      refine ⟨[], Takes.pure [] s.vars, ?_⟩
      intro rest args
      show (⟨rest, args, s.vars⟩ : Parsed) = ⟨rest, args ++ [], s.vars⟩
      rw [List.append_nil]
  | cons element run ih =>
      intro hgiven s after word h
      obtain ⟨hfirst, hmore⟩ := List.forall_mem_cons.mp hgiven
      obtain ⟨byte, word, s', hgen, hrun, rfl⟩ := generateRun_cons_eq_ok h
      obtain ⟨htakes, habsorb⟩ := Element.spelled_of_check hfirst (element.check_of_generate hgen)
      obtain ⟨bytes, htakes', hgives⟩ := ih hmore hrun
      refine ⟨element.asks byte ++ bytes, Takes.bind ?_ htakes htakes', ?_⟩
      · intro t t''
        constructor
        · intro hwhole
          obtain ⟨byte', word', t', hgen', hrun', heq⟩ := generateRun_cons_eq_ok hwhole
          obtain ⟨rfl, rfl⟩ := List.cons.inj heq
          exact ⟨t', hgen', hrun'⟩
        · rintro ⟨t', hgen', hrun'⟩
          rw [generateRun_cons_ok hgen', hrun']
          rfl
      · intro rest args
        show parseRun run (word ++ rest) (element.absorb byte args s.vars).1
          (element.absorb byte args s.vars).2 = _
        rw [habsorb, hgives, List.map_append, List.append_assoc]

namespace Part

/-- What a part was resolved to does not matter to parsing, unless its length
    comes from an argument. -/
theorem parse_of_selfSized {part : Part} (h : part.selfSized = true) (known : Option Nat)
    (buffer : Bytes) (args : Arguments) (vars : Variables) :
    (part.parse known buffer args vars).1 = (part.parse none buffer args vars).1 := by
  cases part with
  | dynamic source item =>
      cases source with
      | argument => simp [selfSized] at h
      | named name => rfl
      | seeded name => rfl
  | _ => rfl

/-- **Whether every byte of a part is written in it or handed in**, and every
    length is known to both ends. -/
def given (part : Part) : Bool := part.selfSized && part.elements.all Element.given

/-- **A part that was generated** takes certain bytes, and parsing it gives
    them back, whatever it was resolved to before. -/
theorem spelled_of_yields {part : Part} (hgiven : part.given = true) {s after : Supply}
    {word : Bytes} (h : part.yields .strict s = (.ok word, after)) :
    ∃ bytes, Takes (part.yields .strict) s.vars word after.vars bytes
      ∧ ∀ known, Gives (fun buffer args vars => (part.parse known buffer args vars).1)
          s.vars word after.vars bytes := by
  obtain ⟨hsized, helements⟩ := (Bool.and_eq_true _ _).mp hgiven
  cases hrun : part.run? none s.vars with
  | none =>
      obtain ⟨e, herr⟩ := part.generate_of_no_run hsized hrun
      simp [yields, herr, Except.map] at h
  | some run =>
      have hall : ∀ element ∈ run, element.given = true := fun element hmem =>
        List.all_eq_true.mp helements element (part.mem_elements_of_run? hrun element hmem)
      have hword := h
      rw [part.generate_eq_generateRun hsized hrun] at hword
      obtain ⟨bytes, htakes, hgives⟩ := spelled_of_generateRun run hall hword
      refine ⟨bytes, htakes.congr ?_, ?_⟩
      · intro args draws
        exact part.generate_eq_generateRun hsized hrun
      · intro known rest args
        dsimp only
        by_cases hsome : word ++ rest = []
        · -- no bytes at all: parsing stops at once, and the run is empty
          have hrest := hgives rest args
          rw [hsome] at hrest ⊢
          rw [(part.parse_nil known args s.vars).1, ← hrest]
          exact ((Part.bytes run).parse_nil none args s.vars).1.symm
        · rw [(part.parse_eq_parseRun hsome args s.vars
            ((run?_of_selfSized hsized known s.vars).trans hrun)).1]
          exact hgives rest args

end Part

/-! ## §4. Lists of parts -/

/-- **Parse parts in order**, each as if it had never been resolved. -/
def parseParts : List Part → Bytes → Arguments → Variables → Parsed
  | [], buffer, args, vars => ⟨buffer, args, vars⟩
  | part :: parts, buffer, args, vars =>
    let p := (part.parse none buffer args vars).1
    parseParts parts p.rest p.args p.vars

/-- **A list of parts that was generated** takes certain bytes, and parsing
    it gives them back. -/
theorem spelled_of_spellParts (parts : List Part) :
    (∀ part ∈ parts, part.given = true) →
    ∀ {s after : Supply} {words : List Bytes}, spellParts parts s = (.ok words, after) →
      ∃ bytes, Takes (spellParts parts) s.vars words after.vars bytes
        ∧ Gives (parseParts parts) s.vars words.flatten after.vars bytes := by
  induction parts with
  | nil =>
      intro _ s after words h
      obtain ⟨hwords, rfl⟩ := Prod.mk.inj h
      obtain rfl : [] = words := Except.ok.inj hwords
      refine ⟨[], Takes.pure [] s.vars, ?_⟩
      intro rest args
      show (⟨rest, args, s.vars⟩ : Parsed) = ⟨rest, args ++ [], s.vars⟩
      rw [List.append_nil]
  | cons part parts ih =>
      intro hgiven s after words h
      obtain ⟨hpart, hparts⟩ := List.forall_mem_cons.mp hgiven
      obtain ⟨word, words, between, hword, hmore, rfl⟩ := spellParts_cons_eq_ok h
      obtain ⟨bytes, htakes, hgives⟩ := Part.spelled_of_yields hpart hword
      obtain ⟨bytes', htakes', hgives'⟩ := ih hparts hmore
      refine ⟨bytes ++ bytes', Takes.bind ?_ htakes htakes', ?_⟩
      · intro t t''
        constructor
        · intro hwhole
          obtain ⟨word', words', t', hword', hmore', heq⟩ := spellParts_cons_eq_ok hwhole
          obtain ⟨rfl, rfl⟩ := List.cons.inj heq
          exact ⟨t', hword', hmore'⟩
        · rintro ⟨t', hword', hmore'⟩
          rw [spellParts_cons_ok hword', hmore']
          rfl
      · intro rest args
        have hfirst := hgives none (words.flatten ++ rest) args
        dsimp only at hfirst
        rw [List.flatten_cons, List.append_assoc, parseParts, hfirst]
        dsimp only
        rw [hgives', List.map_append, List.append_assoc]

/-! ## §5. Scripts -/

/-- **A description that asks:** a number, so many choices, and a mark if the
    number is above two. -/
def Description.chosen : Description :=
  ⟨[.bytes [.producer "n" (.enumerated [2, 3])], .dynamic (.named "n") (.enumerated [7, 8, 9]),
    .optional "n" (.greater 2) (.timed 5 [.fixed 1]), .empty]⟩

namespace Script

/-- What parsing a script leaves behind, besides its resolutions. -/
def parsed (script : Script) (buffer : Bytes) (args : Arguments) (ctx : Context) : Parsed :=
  let (rest, args, after) := script.parse buffer args ctx
  ⟨rest, args, after.vars⟩

/-- **From scripts to parts:** the identities and resolutions of a script
    play no role in parsing. -/
theorem parsed_eq_parseParts (script : Script) :
    (∀ step ∈ script, step.part.selfSized = true) →
    ∀ (buffer : Bytes) (args : Arguments) (ctx : Context),
      script.parsed buffer args ctx
        = parseParts (script.map Step.part) buffer args ctx.vars := by
  induction script with
  | nil =>
      intro _ buffer args ctx
      rfl
  | cons step script ih =>
      intro hsized buffer args ctx
      obtain ⟨hstep, hmore⟩ := List.forall_mem_cons.mp hsized
      unfold parsed
      rw [parse_cons]
      dsimp only
      show Script.parsed script _ _ _ = _
      rw [ih hmore, Context.vars_record, Part.parse_of_selfSized hstep]
      rfl

/-- **Whether every byte of a script is written in it or handed in**, and
    every length is known to both ends. -/
def given (script : Script) : Bool := script.all (·.part.given)

theorem given_parts {script : Script} (h : script.given = true) :
    (∀ step ∈ script, step.part.selfSized = true)
      ∧ ∀ part ∈ script.map Step.part, part.given = true := by
  have hall : ∀ step ∈ script, step.part.given = true := List.all_eq_true.mp h
  constructor
  · intro step hstep
    exact ((Bool.and_eq_true _ _).mp (hall step hstep)).1
  · intro part hpart
    obtain ⟨step, hstep, rfl⟩ := List.mem_map.mp hpart
    exact hall step hstep

/-- **A script that was generated** takes certain bytes, on whichever queue
    and with whatever draws, and parsing its word gives them back. -/
theorem spelled_of_messages? {script : Script} (hgiven : script.given = true)
    {pass after : Pass} {messages : List (Option Message)}
    (h : script.messages? pass = (.ok messages, after)) :
    ∃ bytes, Takes (spellParts (script.map Step.part)) pass.context.vars (messages.map sentBytes)
        after.context.vars bytes
      ∧ ∀ args ctx, ctx.vars = pass.context.vars →
        script.parsed (wireOf messages) args ctx
          = ⟨[], args ++ bytes.map Value.byte, after.context.vars⟩ := by
  obtain ⟨hsized, hparts⟩ := given_parts hgiven
  have hspell := (script.spelled_eq_ok_iff pass _ _).mpr ⟨messages, after, h, rfl, rfl⟩
  rw [spelled_eq_spellParts] at hspell
  obtain ⟨bytes, htakes, hgives⟩ := spelled_of_spellParts _ hparts hspell
  refine ⟨bytes, htakes, ?_⟩
  intro args ctx hvars
  rw [parsed_eq_parseParts script hsized, hvars, wireOf_eq_flatten]
  have hall := hgives [] args
  rw [List.append_nil] at hall
  exact hall

/-- **PARSING AND GENERATION ARE INVERSE.**  Let every byte of a script be
    written in it or handed in, under one name at most, and let no length come
    from an argument.  From equal variables,

    • the arguments parsed from a word that is accepted to its last byte
      generate just that word again, whatever the draws, and are used up,
    • the word generated from arguments that it uses up is parsed back into
      them, each value as the byte it denotes.

    The contexts may have resolved anything before. -/
theorem parse_inverts_generate (script : Script) (hgiven : script.given = true)
    (sender receiver : Context) (hvars : sender.vars = receiver.vars) :
    (∀ word after, script.validate word receiver = (.valid, [], after) →
        ∀ draws, ∃ messages pass,
          script.messages? ⟨(script.parse word [] receiver).2.1, draws, sender⟩
              = (.ok messages, pass)
            ∧ wireOf messages = word ∧ pass.args = [])
      ∧ ∀ args draws messages pass,
          script.messages? ⟨args, draws, sender⟩ = (.ok messages, pass) → pass.args = [] →
          ∃ bytes, args.Denote bytes
            ∧ (script.parse (wireOf messages) [] receiver).2.1 = bytes.map Value.byte := by
  obtain ⟨hsized, -⟩ := given_parts hgiven
  constructor
  · intro word after hvalid draws
    -- some arguments and draws generate the word; these know all that do
    obtain ⟨args₀, draws₀, messages, pass, hgen, rfl⟩ :=
      (accepts_iff_generates script hsized sender receiver hvars word).1.mp ⟨after, hvalid⟩
    obtain ⟨bytes, htakes, hparsed⟩ := spelled_of_messages? hgiven hgen
    have hback := congrArg Parsed.args (hparsed [] receiver hvars.symm)
    have hargs : (script.parse (wireOf messages) [] receiver).2.1 = bytes.map Value.byte := hback
    have hagain := (htakes (bytes.map Value.byte) draws ⟨[], pass.context.vars, draws⟩).mpr
      ⟨_, [], (List.append_nil _).symm, Arguments.denote_bytes bytes, rfl⟩
    have hspelled := script.spelled_eq_spellParts ⟨bytes.map Value.byte, draws, sender⟩
    rw [show Pass.supply ⟨bytes.map Value.byte, draws, sender⟩
      = ⟨bytes.map Value.byte, sender.vars, draws⟩ from rfl, hagain] at hspelled
    obtain ⟨messages', pass', hgen', hmap, hsupply⟩ := (script.spelled_eq_ok_iff _ _ _).mp hspelled
    rw [hargs]
    refine ⟨messages', pass', hgen', ?_, congrArg Supply.args hsupply⟩
    rw [wireOf_eq_flatten, wireOf_eq_flatten, hmap]
  · intro args draws messages pass hgen hused
    obtain ⟨bytes, htakes, hparsed⟩ := spelled_of_messages? hgiven hgen
    have hspelled := (script.spelled_eq_ok_iff ⟨args, draws, sender⟩ _ _).mpr
      ⟨messages, pass, hgen, rfl, rfl⟩
    rw [spelled_eq_spellParts] at hspelled
    obtain ⟨values, left, hargs, hdenote, hsupply⟩ := (htakes args draws _).mp hspelled
    have hleft : pass.args = left := congrArg Supply.args hsupply
    rw [← hleft, hused, List.append_nil] at hargs
    refine ⟨bytes, hargs ▸ hdenote, ?_⟩
    exact congrArg Parsed.args (hparsed [] receiver hvars.symm)

/-- Both ways through a word of five bytes, of which four are handed in; two
    of these come as integers. -/
theorem parse_inverts_generate_chosen :
    (ofDescription 0 .chosen).given = true ∧ Context.empty.vars = Context.empty.vars
      ∧ (∃ messages pass,
          (ofDescription 0 .chosen).messages?
              ⟨[.byte 3, .byte 7, .byte 8, .byte 9], default, .empty⟩ = (.ok messages, pass)
            ∧ wireOf messages = [3, 7, 8, 9, 1] ∧ pass.args = [])
      ∧ ∃ bytes, Arguments.Denote [.int 3, .byte 7, .int 8, .byte 9] bytes
          ∧ ((ofDescription 0 .chosen).parse [3, 7, 8, 9, 1] [] .empty).2.1
            = bytes.map Value.byte := by
  have hgiven : (ofDescription 0 .chosen).given = true := by decide
  obtain ⟨hparsed, hgenerated⟩ :=
    parse_inverts_generate (ofDescription 0 .chosen) hgiven .empty .empty rfl
  refine ⟨hgiven, rfl, ?_, ?_⟩
  · exact hparsed [3, 7, 8, 9, 1] _ rfl default
  · exact hgenerated [.int 3, .byte 7, .int 8, .byte 9] default _ _ rfl rfl

end Script

end Masquerade
