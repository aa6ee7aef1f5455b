/-
  Masquerade.Proofs.Persistence — WHAT IS SAVED LOADS BACK.

  A saved value is the base64 of a compact text, the canonical envelope.
  The reader of that text goes only so deep.  A value whose envelope nests no
  deeper loads back as it was, and any other is refused; and since a value
  never nests deeper in its canonical form than in the text it was read
  from, whatever has been loaded once can be saved and loaded again.

  Main results:
    * `Envelope.bodyOf_print` — an envelope's text gives its body back,
      within the limit.
    * `Envelope.fits_of_bodyOf` — every body stays within the limit.
    * `Saves.of_lawful` — lawful storage gives lawful saving.
    * `saved_loads_back` — patterns, configurations and files.
-/
import Masquerade.Files
import Masquerade.Proofs.Settings

namespace Masquerade

namespace Json

/-! ## §1. Objects of known fields -/

theorem takeValue_print {value : Json} (h : Plain value) (depth : Nat) {rest : Bytes}
    (hstops : Stops rest) :
    takeValue depth (print value ++ rest) = if nesting value ≤ depth then some (value, rest) else none :=
  readValue_print h depth hstops

theorem takeText_print (text : String) {rest : Bytes} (hstops : Stops rest) :
    takeText (print (.str text) ++ rest) = some (text, rest) := by
  unfold takeText
  rw [takeValue_print (.str text) 0 hstops]
  rfl

section

variable {α : Type} {fields : List String} {take : Taker α} {found : List (String × α)}
  {name : String} {input rest : Bytes} {a : α}

theorem fieldMembers_of_none (fuel : Nat) (hname : name ∈ fields) (htake : take input = none) :
    fieldMembers fields take found (fuel + 1) (printText name ++ 0x3a :: input) = none := by
  rw [fieldMembers, readName_printText]
  simp [hname, htake]

theorem fieldMembers_last (fuel : Nat) (hname : name ∈ fields)
    (hfresh : found.any (fun entry => entry.1 == name) = false)
    (htake : take input = some (a, 0x7d :: rest)) :
    fieldMembers fields take found (fuel + 1) (printText name ++ 0x3a :: input)
      = some ((name, a) :: found, rest) := by
  rw [fieldMembers, readName_printText]
  simp [hname, hfresh, htake, dropBlanks_eq_of_head rest (show isBlank 0x7d = false by decide)]

theorem fieldMembers_more (fuel : Nat) (hname : name ∈ fields)
    (hfresh : found.any (fun entry => entry.1 == name) = false)
    (htake : take input = some (a, 0x2c :: rest)) :
    fieldMembers fields take found (fuel + 1) (printText name ++ 0x3a :: input)
      = fieldMembers fields take ((name, a) :: found) fuel rest := by
  rw [fieldMembers, readName_printText]
  simp [hname, hfresh, htake, dropBlanks_eq_of_head rest (show isBlank 0x2c = false by decide)]

/-- An object with a member is read member by member. -/
theorem takeFields_members (fields : List String) (take : Taker α) (more : Bytes) :
    takeFields fields take (0x7b :: 0x22 :: more) = (do
      let (found, rest) ← fieldMembers fields take [] (fuelFor (0x22 :: more)) (0x22 :: more)
      let values ← inOrder found fields
      some (values, rest)) := by
  unfold takeFields
  rw [dropBlanks_eq_of_head _ (by decide)]
  simp [dropBlanks_eq_of_head more (show isBlank 0x22 = false by decide)]

/-- **An object of one field** gives its value back, if that reads back. -/
theorem takeFields_single {value : Json}
    (htake : take (print value ++ 0x7d :: rest) = some (a, 0x7d :: rest)) :
    takeFields [name] take (print (.obj [(name, value)]) ++ rest) = some ([a], rest) := by
  obtain ⟨more, hmore⟩ : ∃ more, printText name ++ 0x3a :: (print value ++ 0x7d :: rest)
      = 0x22 :: more := ⟨_, by rw [printText_append]⟩
  have htext : print (.obj [(name, value)]) ++ rest = 0x7b :: 0x22 :: more := by
    rw [print, printMembers, printMember, ← hmore]
    simp
  have hread : ∀ fuel, fieldMembers [name] take [] (fuel + 1) (0x22 :: more)
      = some ([(name, a)], rest) := by
    intro fuel
    rw [← hmore]
    exact fieldMembers_last fuel List.mem_cons_self rfl htake
  rw [htext, takeFields_members, fuelFor, hread]
  simp [inOrder]

end

/-! ## §2. What takers return -/

section

variable {α : Type} {P : α → Prop} {take : Taker α}

theorem forall_fieldMembers (htake : ∀ {input a rest}, take input = some (a, rest) → P a)
    (fields : List String) (fuel : Nat) : ∀ {found after : List (String × α)} {input rest : Bytes},
    (∀ entry ∈ found, P entry.2) →
    fieldMembers fields take found fuel input = some (after, rest) → ∀ entry ∈ after, P entry.2 := by
  -- what was found so far grows with each turn, and what is not a field is passed over
  induction fuel with
  | zero =>
      intro found after input rest _ h
      cases h
  | succ fuel ih =>
      intro found after input rest hfound h
      simp only [fieldMembers, bind, Option.bind_eq_some_iff] at h
      obtain ⟨⟨name, rest'⟩, -, h⟩ := h
      dsimp only at h
      split at h
      · split at h
        · cases h
        · obtain ⟨⟨found', rest''⟩, hnext, h⟩ := Option.bind_eq_some_iff.mp h
          obtain ⟨⟨a, _⟩, ha, heq⟩ := Option.map_eq_some_iff.mp hnext
          cases heq
          have hmore : ∀ entry ∈ (name, a) :: found, P entry.2 :=
            List.forall_mem_cons.mpr ⟨htake ha, hfound⟩
          dsimp only at h
          split at h
          · exact ih hmore h
          · cases h
            exact hmore
          · cases h
      · obtain ⟨⟨found', rest''⟩, hnext, h⟩ := Option.bind_eq_some_iff.mp h
        obtain ⟨_, -, heq⟩ := Option.map_eq_some_iff.mp hnext
        cases heq
        dsimp only at h
        split at h
        · exact ih hfound h
        · cases h
          exact hfound
        · cases h

theorem forall_inOrder {found : List (String × α)} (hfound : ∀ entry ∈ found, P entry.2) :
    ∀ {fields : List String} {values : List α}, inOrder found fields = some values →
      ∀ a ∈ values, P a := by
  intro fields
  induction fields with
  | nil =>
      intro values h
      obtain rfl := Option.some.inj h
      exact nofun
  | cons name more ih =>
      intro values h
      simp only [inOrder, bind, Option.bind_eq_some_iff] at h
      obtain ⟨entry, hentry, values', hvalues, heq⟩ := h
      obtain rfl := Option.some.inj heq
      exact List.forall_mem_cons.mpr
        ⟨hfound entry (List.mem_of_find?_eq_some hentry), ih hvalues⟩

theorem forall_fieldItems (htake : ∀ {input a rest}, take input = some (a, rest) → P a) :
    ∀ {fields : List String} {input rest : Bytes} {values : List α},
      fieldItems take fields input = some (values, rest) → ∀ a ∈ values, P a := by
  intro fields
  induction fields with
  | nil =>
      intro input rest values h
      cases h
  | cons name more ih =>
      intro input rest values h
      cases more with
      | nil =>
          simp only [fieldItems, bind, Option.bind_eq_some_iff] at h
          obtain ⟨⟨a, _⟩, ha, _, -, heq⟩ := h
          cases heq
          exact List.forall_mem_singleton.mpr (htake ha)
      | cons name' more =>
          simp only [fieldItems, bind, Option.bind_eq_some_iff] at h
          obtain ⟨⟨a, _⟩, ha, _, -, ⟨values', _⟩, hvalues, heq⟩ := h
          cases heq
          exact List.forall_mem_cons.mpr ⟨htake ha, ih hvalues⟩

/-- **What holds of every value that is taken** holds of the fields. -/
theorem forall_takeFields (htake : ∀ {input a rest}, take input = some (a, rest) → P a)
    {fields : List String} {input rest : Bytes} {values : List α}
    (h : takeFields fields take input = some (values, rest)) : ∀ a ∈ values, P a := by
  unfold takeFields at h
  split at h
  · split at h
    · obtain ⟨values', hvalues, heq⟩ := Option.map_eq_some_iff.mp h
      cases heq
      exact forall_inOrder (fun _ hmem => absurd hmem List.not_mem_nil) hvalues
    · simp only [bind, Option.bind_eq_some_iff] at h
      obtain ⟨⟨found, _⟩, hfound, values', hvalues, heq⟩ := h
      cases heq
      have hall := forall_fieldMembers htake _ _ (fun _ hmem => absurd hmem List.not_mem_nil) hfound
      exact forall_inOrder hall hvalues
  · exact forall_fieldItems htake h
  · cases h

end

theorem exists_of_takeAll? {α : Type} {take : Taker α} {input : Bytes} {a : α}
    (h : takeAll? take input = some a) : ∃ rest, take input = some (a, rest) := by
  simp only [takeAll?, bind, Option.bind_eq_some_iff] at h
  obtain ⟨⟨a', rest⟩, htake, h⟩ := h
  dsimp only at h
  split at h
  · obtain rfl := Option.some.inj h
    exact ⟨rest, htake⟩
  · cases h

end Json

/-! ## §3. White space -/

namespace Text

/-- White space and nothing else. -/
def Blank (text : String) : Prop := ∀ c ∈ text.toList, isBlank c = true

theorem dropWhile_isBlank {front chars : List Char} (hfront : ∀ c ∈ front, isBlank c = true)
    (hchars : ∀ c ∈ chars.head?, isBlank c = false) :
    (front ++ chars).dropWhile isBlank = chars := by
  rw [List.dropWhile_append_of_pos hfront]
  cases chars with
  | nil => rfl
  | cons c chars => simp [hchars c rfl]

/-- **White space around a text that holds none** is cut off. -/
theorem trim_append {before after text : String} (hbefore : Blank before) (hafter : Blank after)
    (htext : ∀ c ∈ text.toList, isBlank c = false) : trim (before ++ text ++ after) = text := by
  have hends : ((before.toList ++ (text.toList ++ after.toList)).dropWhile isBlank).reverse.dropWhile
      isBlank = text.toList.reverse := by
    cases htoList : text.toList with
    | nil =>
        -- all is white space
        have hall : ∀ c ∈ before.toList ++ after.toList, isBlank c = true := by
          intro c hc
          rcases List.mem_append.mp hc with hc | hc
          · exact hbefore c hc
          · exact hafter c hc
        have hnone := @dropWhile_isBlank _ [] hall nofun
        rw [List.append_nil] at hnone
        rw [List.nil_append, hnone]
        rfl
    | cons c chars =>
        rw [htoList] at htext
        rw [dropWhile_isBlank hbefore
          (by intro c' hc'; rw [← Option.some.inj hc']; exact htext c List.mem_cons_self),
          List.reverse_append]
        refine dropWhile_isBlank (fun c' hc' => hafter c' (List.mem_reverse.mp hc')) ?_
        intro c' hc'
        exact htext c' (List.mem_reverse.mp (List.mem_of_mem_head? hc'))
  unfold trim
  rw [String.toList_append, String.toList_append, List.append_assoc, hends, List.reverse_reverse,
    String.ofList_toList]

end Text

/-- An encoding holds no white space. -/
theorem Base64.not_isBlank_of_mem_encodeText (bytes : Bytes) :
    ∀ c ∈ (encodeText bytes).toList, Text.isBlank c = false := by
  intro c hc
  unfold encodeText at hc
  rw [String.toList_ofList] at hc
  obtain ⟨b, hb, rfl⟩ := List.mem_map.mp hc
  have hletter : ∀ n, n < 64 → Text.isBlank (Char.ofNat (letter n).toNat) = false := by decide
  have hpad : Text.isBlank (Char.ofNat pad.toNat) = false := by decide
  exact @forall_mem_encode (fun b => Text.isBlank (Char.ofNat b.toNat) = false) hletter hpad bytes b
    hb

/-! ## §4. Envelopes -/

namespace Envelope

/-- **The canonical envelope** of a stored form. -/
def form (body : Json) : Json := .obj [("version", .int version), ("body", body)]

theorem nesting_form (body : Json) : (form body).nesting = body.nesting + 1 := by
  simp [form, Json.nesting, Json.nestingMembers, Json.nestingMember]

/-- A form whose envelope the reader can go through. -/
def Fits (body : Json) : Prop := (form body).nesting ≤ Json.maxNesting

/-- The text of an envelope, member by member. -/
theorem print_form (body : Json) :
    Json.print (form body) = 0x7b :: (Json.printText "version" ++ 0x3a
      :: (Json.print (.int version) ++ 0x2c :: (Json.printText "body" ++ 0x3a
        :: (Json.print body ++ [0x7d])))) := by
  have hmembers := Json.printMembers_cons "version" (.int version)
    (List.cons_ne_nil ("body", body) [])
  unfold form
  rw [Json.print.eq_def]
  dsimp only
  rw [hmembers, Json.printMembers, Json.printMember, List.append_assoc]
  rfl

theorem takeFields_form {body : Json} (h : body.Plain) :
    Json.takeFields fields (Json.takeValue (Json.maxNesting - 1)) (Json.print (form body))
      = if body.nesting ≤ Json.maxNesting - 1 then some ([.int version, body], []) else none := by
  have hversion : Json.takeValue (Json.maxNesting - 1)
      (Json.print (.int version) ++ 0x2c :: (Json.printText "body" ++ 0x3a
        :: (Json.print body ++ [0x7d])))
      = some (.int version, 0x2c :: (Json.printText "body" ++ 0x3a
        :: (Json.print body ++ [0x7d]))) :=
    (Json.takeValue_print (.int (by decide) (by decide)) _ (Json.stops_cons _ (.inl rfl))).trans
      (if_pos (Nat.zero_le _))
  have hbody := Json.takeValue_print h (Json.maxNesting - 1)
    (Json.stops_cons [] (.inr (.inr rfl)))
  obtain ⟨more, hmore⟩ : ∃ more, Json.printText "version" ++ 0x3a
      :: (Json.print (.int version) ++ 0x2c :: (Json.printText "body" ++ 0x3a
        :: (Json.print body ++ [0x7d]))) = 0x22 :: more := ⟨_, by rw [Json.printText_append]⟩
  have hread : ∀ fuel, Json.fieldMembers fields (Json.takeValue (Json.maxNesting - 1)) [] (fuel + 2)
      (0x22 :: more) = if body.nesting ≤ Json.maxNesting - 1
        then some ([("body", body), ("version", .int version)], []) else none := by
    -- two turns, one for each member; the last one found comes first
    intro fuel
    rw [← hmore, Json.fieldMembers_more (fuel + 1) (by decide) rfl hversion]
    by_cases hdeep : body.nesting ≤ Json.maxNesting - 1
    · rw [if_pos hdeep] at hbody ⊢
      exact Json.fieldMembers_last fuel (by decide) (by decide) hbody
    · rw [if_neg hdeep] at hbody ⊢
      exact Json.fieldMembers_of_none fuel (by decide) hbody
  rw [print_form, hmore, Json.takeFields_members, Json.fuelFor, hread]
  by_cases hdeep : body.nesting ≤ Json.maxNesting - 1
  · rw [if_pos hdeep, if_pos hdeep]
    rfl
  · rw [if_neg hdeep, if_neg hdeep]
    rfl

theorem fits_iff (body : Json) : Fits body ↔ body.nesting ≤ Json.maxNesting - 1 := by
  unfold Fits Json.maxNesting
  rw [nesting_form]
  omega

/-- **An envelope's text gives its body back,** within the limit. -/
theorem bodyOf_print {body : Json} (h : body.Plain) (hfits : Fits body) :
    bodyOf (Json.print (form body)) = .ok body := by
  have htake := takeFields_form h
  rw [if_pos ((fits_iff body).mp hfits)] at htake
  unfold bodyOf Json.takeAll?
  rw [htake]
  rfl

/-- **Beyond the limit** an envelope's text is malformed. -/
theorem bodyOf_print_of_not_fits {body : Json} (h : body.Plain) (hfits : ¬ Fits body) :
    bodyOf (Json.print (form body)) = .error (.encoding .malformed) := by
  have htake := takeFields_form h
  rw [if_neg (fun hle => hfits ((fits_iff body).mpr hle))] at htake
  unfold bodyOf Json.takeAll?
  rw [htake]
  rfl

/-- **Every body stays within the limit,** whatever text it comes from. -/
theorem fits_of_bodyOf {text : Bytes} {body : Json} (h : bodyOf text = .ok body) : Fits body := by
  unfold bodyOf at h
  split at h
  · rename_i found body' htake
    obtain ⟨rest, htake⟩ := Json.exists_of_takeAll? htake
    have hall := Json.forall_takeFields
      (fun hread => (Json.nesting_le_of_read _).1 hread) htake
    split at h
    · cases h
    · split at h
      · obtain rfl := Except.ok.inj h
        exact (fits_iff body').mpr (hall body' (List.mem_cons_of_mem _ List.mem_cons_self))
      · cases h
  · cases h

section

variable {α : Type} {read : Json → Except EncodingFault α} {body : Json} {before after : String}

theorem decode_encode (hbefore : Text.Blank before) (hafter : Text.Blank after) :
    decode read (before ++ encode body ++ after)
      = match bodyOf (Json.print (form body)) with
        | .error e => .error e
        | .ok body =>
          match read body with
          | .ok value => .ok value
          | .error fault => .error (.encoding fault) := by
  unfold decode encode
  rw [Text.trim_append hbefore hafter (Base64.not_isBlank_of_mem_encodeText _),
    Base64.decode_encodeText]
  rfl

/-- What is decoded was read from a body within the limit. -/
theorem exists_of_decode {encoded : String} {a : α} (h : decode read encoded = .ok a) :
    ∃ body, Fits body ∧ read body = .ok a := by
  unfold decode at h
  split at h
  · cases h
  · split at h
    · cases h
    · rename_i body hbody
      split at h
      · rename_i value hvalue
        rw [← Except.ok.inj h]
        exact ⟨body, fits_of_bodyOf hbody, hvalue⟩
      · cases h

end

end Envelope

/-! ## §5. Saving and loading -/

open Stored (Lawful Any)

/-- **A way of saving and loading** the valid values of a kind. -/
structure Saves {α β : Type} (valid : α → Prop) (write : α → Json) (save : α → β)
    (load : β → Except Error α) : Prop where
  /-- What stays within the limit loads back. -/
  loads : ∀ {v}, valid v → Envelope.Fits (write v) → load (save v) = .ok v
  /-- What does not is refused. -/
  refuses : ∀ {v}, ¬ Envelope.Fits (write v) → load (save v) = .error (.encoding .malformed)
  /-- Whatever loads, from whatever it was saved in, is valid and stays within
      the limit. -/
  returns : ∀ {saved v}, load saved = .ok v → valid v ∧ Envelope.Fits (write v)
  /-- So it can be saved and loaded again. -/
  again : ∀ {saved v}, load saved = .ok v → load (save v) = .ok v

namespace Saves

section

variable {α β : Type} {valid : α → Prop} {write : α → Json} {save : α → β}
  {load : β → Except Error α}

theorem of_parts (hloads : ∀ {v}, valid v → Envelope.Fits (write v) → load (save v) = .ok v)
    (hrefuses : ∀ {v}, ¬ Envelope.Fits (write v) → load (save v) = .error (.encoding .malformed))
    (hreturns : ∀ {saved v}, load saved = .ok v → valid v ∧ Envelope.Fits (write v)) :
    Saves valid write save load where
  loads := hloads
  refuses := hrefuses
  returns := hreturns
  again h := hloads (hreturns h).1 (hreturns h).2

/-- **Lawful storage gives lawful saving,** with any white space around. -/
theorem of_lawful {read : Json → Except EncodingFault α}
    (h : Lawful valid write (fun json => (read json).toOption)) {before after : String}
    (hbefore : Text.Blank before) (hafter : Text.Blank after) :
    Saves valid write (fun v => before ++ Envelope.encode (write v) ++ after)
      (Envelope.decode read) := by
  refine of_parts ?_ ?_ ?_
  · intro v hvalid hfits
    rw [Envelope.decode_encode hbefore hafter, Envelope.bodyOf_print (h.plain v) hfits]
    dsimp only
    rw [toOption_eq_some.mp (h.reads hvalid)]
  · intro v hfits
    rw [Envelope.decode_encode hbefore hafter,
      Envelope.bodyOf_print_of_not_fits (h.plain v) hfits]
  · intro saved v hload
    obtain ⟨body, hfits, hread⟩ := Envelope.exists_of_decode hload
    obtain ⟨hvalid, hle⟩ := h.shallow (toOption_eq_some.mpr hread)
    exact ⟨hvalid, (Envelope.fits_iff _).mpr
      (Nat.le_trans hle ((Envelope.fits_iff body).mp hfits))⟩

/-- **Another wrapping** of what is saved changes nothing. -/
theorem rewrap {γ : Type} {wrap : α → γ} {unwrap : γ → Except Error α}
    (h : Saves valid write save load) (hsave : ∀ v, unwrap (wrap v) = load (save v))
    (hload : ∀ {wrapped v}, unwrap wrapped = .ok v → ∃ saved, load saved = .ok v) :
    Saves valid write wrap unwrap := by
  refine of_parts ?_ ?_ ?_
  · intro v hvalid hfits
    rw [hsave, h.loads hvalid hfits]
  · intro v hfits
    rw [hsave, h.refuses hfits]
  · intro wrapped v hunwrap
    obtain ⟨saved, hsaved⟩ := hload hunwrap
    exact h.returns hsaved

/-- **As a part of something larger** that is saved with it. -/
theorem part {γ δ : Type} {inner : γ → α} {wrap : γ → δ} {unwrap : δ → Except Error γ}
    (h : Saves valid write save load)
    (hsave : ∀ {whole}, load (save (inner whole)) = .ok (inner whole) →
      unwrap (wrap whole) = .ok whole)
    (hfail : ∀ {whole e}, load (save (inner whole)) = .error e → unwrap (wrap whole) = .error e)
    (hload : ∀ {wrapped whole}, unwrap wrapped = .ok whole → ∃ saved, load saved = .ok (inner whole)) :
    Saves (fun whole => valid (inner whole)) (fun whole => write (inner whole)) wrap unwrap := by
  refine of_parts ?_ ?_ ?_
  · intro whole hvalid hfits
    exact hsave (h.loads hvalid hfits)
  · intro whole hfits
    exact hfail (h.refuses hfits)
  · intro wrapped whole hunwrap
    obtain ⟨saved, hsaved⟩ := hload hunwrap
    exact h.returns hsaved

end

end Saves

theorem takeWrapped_print (encoded : String) (rest : Bytes) :
    takeWrapped (Json.print (wrapped encoded) ++ rest) = some (encoded, rest) := by
  have htake := Json.takeText_print encoded (Json.stops_cons rest (.inr (.inr rfl)))
  unfold takeWrapped wrapped
  rw [Json.takeFields_single htake]
  rfl

theorem ClientConfig.unmarshal_marshal (config : ClientConfig) :
    unmarshal config.marshal = decode config.encode := by
  have htake := takeWrapped_print config.encode []
  rw [List.append_nil] at htake
  unfold unmarshal marshal Json.takeAll?
  rw [htake]
  rfl

theorem ServerConfig.unmarshal_marshal (config : ServerConfig) :
    unmarshal config.marshal = decode config.encode := by
  have htake := @Json.takeFields_single _ takeWrapped "Replicant" [] _ _
    (takeWrapped_print config.encode (0x7d :: []))
  rw [List.append_nil] at htake
  unfold unmarshal marshal Json.takeAll?
  rw [htake]
  rfl

theorem ClientConfig.exists_of_unmarshal {text : Bytes} {config : ClientConfig}
    (h : unmarshal text = .ok config) : ∃ encoded, decode encoded = .ok config := by
  unfold unmarshal at h
  split at h
  · exact ⟨_, h⟩
  · cases h

theorem ServerConfig.exists_of_unmarshal {text : Bytes} {config : ServerConfig}
    (h : unmarshal text = .ok config) : ∃ encoded, decode encoded = .ok config := by
  unfold unmarshal at h
  split at h
  · exact ⟨_, h⟩
  · cases h

/-! ## §6. Everything that is saved -/

section

variable {before after : String}

theorem Description.saves (hbefore : Text.Blank before) (hafter : Text.Blank after) :
    Saves Any toJson (fun v => before ++ v.encode ++ after) decode :=
  .of_lawful (Description.lawful .outer).required hbefore hafter

theorem Instance.saves (hbefore : Text.Blank before) (hafter : Text.Blank after) :
    Saves Any toJson (fun v => before ++ v.encode ++ after) decode :=
  .of_lawful (Instance.lawful .outer).required hbefore hafter

theorem ClientConfig.saves (hbefore : Text.Blank before) (hafter : Text.Blank after) :
    Saves Valid toJson (fun v => before ++ v.encode ++ after) decode :=
  .of_lawful ClientConfig.lawful hbefore hafter

theorem ServerConfig.saves (hbefore : Text.Blank before) (hafter : Text.Blank after) :
    Saves Valid toJson (fun v => before ++ v.encode ++ after) decode :=
  .of_lawful ServerConfig.lawful hbefore hafter

end

/-- Without white space. -/
theorem ClientConfig.saves_bare : Saves Valid toJson encode decode := by
  have h := @saves "" "" nofun nofun
  simpa only [String.append_empty, String.empty_append] using h

theorem ServerConfig.saves_bare : Saves Valid toJson encode decode := by
  have h := @saves "" "" nofun nofun
  simpa only [String.append_empty, String.empty_append] using h

theorem ClientFile.saves : Saves (fun config : TunnelClient => config.connection.Valid)
    (fun config => config.connection.toJson) ofConfig config := by
  refine ClientConfig.saves_bare.part ?_ ?_ ?_
  · intro whole h
    unfold ClientFile.config ofConfig
    rw [h]
    rfl
  · intro whole e h
    unfold ClientFile.config ofConfig
    rw [h]
    rfl
  · intro file whole h
    obtain ⟨connection, hconnection, heq⟩ := exists_of_bind_eq_ok h
    rw [← Except.ok.inj heq]
    exact ⟨file.connection, hconnection⟩

theorem ServerFile.saves : Saves (fun config : TunnelServer => config.connection.Valid)
    (fun config => config.connection.toJson) ofConfig config := by
  refine ServerConfig.saves_bare.part ?_ ?_ ?_
  · intro whole h
    unfold ServerFile.config ofConfig
    rw [h]
    rfl
  · intro whole e h
    unfold ServerFile.config ofConfig
    rw [h]
    rfl
  · intro file whole h
    obtain ⟨connection, hconnection, heq⟩ := exists_of_bind_eq_ok h
    rw [← Except.ok.inj heq]
    exact ⟨file.connection, hconnection⟩

/-- **WHAT IS SAVED LOADS BACK.**  The opaque string of a stored form is the
    base64 of the compact text of its canonical envelope, and

    • descriptions, instances and both configurations load back from their
      opaque strings, with any white space around them, if the envelope stays
      within the limit of nesting, and are refused if it does not;
    • configurations do so too in the text in which they are handed out, and
      in the files of both tunnel ends;
    • whatever any of the readers returns, from whatever it was given, stays
      within the limit and has its public key on the curve, so that it can be
      saved and loaded again. -/
theorem saved_loads_back :
    (∀ body : Json, Base64.decode (Bytes.ofText (Envelope.encode body))
      = .ok (Json.print (Envelope.form body)))
      ∧ (∀ before after : String, Text.Blank before → Text.Blank after →
        Saves Any Description.toJson (fun v => before ++ v.encode ++ after) Description.decode
          ∧ Saves Any Instance.toJson (fun v => before ++ v.encode ++ after) Instance.decode
          ∧ Saves ClientConfig.Valid ClientConfig.toJson (fun v => before ++ v.encode ++ after)
            ClientConfig.decode
          ∧ Saves ServerConfig.Valid ServerConfig.toJson (fun v => before ++ v.encode ++ after)
            ServerConfig.decode)
      ∧ Saves ClientConfig.Valid ClientConfig.toJson ClientConfig.marshal ClientConfig.unmarshal
      ∧ Saves ServerConfig.Valid ServerConfig.toJson ServerConfig.marshal ServerConfig.unmarshal
      ∧ Saves (fun config : TunnelClient => config.connection.Valid)
        (fun config => config.connection.toJson) ClientFile.ofConfig ClientFile.config
      ∧ Saves (fun config : TunnelServer => config.connection.Valid)
        (fun config => config.connection.toJson) ServerFile.ofConfig ServerFile.config := by
  refine ⟨fun body => Base64.decode_encodeText _, ?_, ?_, ?_, ClientFile.saves, ServerFile.saves⟩
  · intro before after hbefore hafter
    exact ⟨Description.saves hbefore hafter, Instance.saves hbefore hafter,
      ClientConfig.saves hbefore hafter, ServerConfig.saves hbefore hafter⟩
  · exact ClientConfig.saves_bare.rewrap ClientConfig.unmarshal_marshal
      ClientConfig.exists_of_unmarshal
  · exact ServerConfig.saves_bare.rewrap ServerConfig.unmarshal_marshal
      ServerConfig.exists_of_unmarshal

/-- So many optional parts around each other. -/
def Part.nested : Nat → Part
  | 0 => .empty
  | depth + 1 => .optional "x" (.greater 0) (nested depth)

theorem Part.nesting_nested (depth : Nat) : (nested depth).toJson.nesting = depth + 1 := by
  induction depth with
  | zero => rfl
  | succ depth ih =>
      simp only [nested, toJson, Condition.toJson, Json.nesting, Json.nestingMembers,
        Json.nestingMember, ih]
      omega

theorem Description.fits_nested (depth : Nat) :
    Envelope.Fits (Description.mk [.nested depth]).toJson ↔ depth ≤ 123 := by
  rw [Envelope.fits_iff, nesting_toJson]
  simp only [List.map_cons, List.map_nil, Json.nesting, Json.nestingItems, Part.nesting_nested,
    Json.maxNesting]
  omega

/-- With 123 optional parts around each other a description loads back, white
    space around it or not, and with one more it is refused; a configuration
    loads back from the text in which it is handed out. -/
theorem saved_loads_back_nested :
    Description.decode (" " ++ (Description.mk [.nested 123]).encode ++ "\n")
        = .ok ⟨[.nested 123]⟩
      ∧ Description.decode (" " ++ (Description.mk [.nested 124]).encode ++ "\n")
        = .error (.encoding .malformed)
      ∧ ServerConfig.unmarshal (ServerConfig.marshal ⟨none, some ⟨P256.generator, default, 93⟩⟩)
        = .ok ⟨none, some ⟨P256.generator, default, 93⟩⟩ := by
  have hspace : Text.Blank " " := by
    intro c hc
    rw [List.mem_singleton.mp hc]
    rfl
  have hline : Text.Blank "\n" := by
    intro c hc
    rw [List.mem_singleton.mp hc]
    rfl
  have hfits : Envelope.Fits (Description.mk [.nested 123]).toJson :=
    (Description.fits_nested 123).mpr (Nat.le_refl 123)
  have hdeep : ¬ Envelope.Fits (Description.mk [.nested 124]).toJson :=
    fun h => Nat.not_succ_le_self 123 ((Description.fits_nested 124).mp h)
  have hconfig : Envelope.Fits
      (ServerConfig.mk none (some ⟨P256.generator, default, 93⟩)).toJson :=
    (Envelope.fits_iff _).mpr (by
      simp [ServerConfig.toJson, SilverServer.toJson, optionJson, bytesJson, Json.nesting,
        Json.nestingMembers, Json.nestingMember, Json.maxNesting])
  have hvalid : (ServerConfig.mk none (some ⟨P256.generator, default, 93⟩)).Valid := by
    intro polish hpolish
    rw [← Option.some.inj hpolish]
    decide
  obtain ⟨-, hstrings, -, hhanded, -, -⟩ := saved_loads_back
  have hdescription := (hstrings " " "\n" hspace hline).1
  exact ⟨hdescription.loads trivial hfits, hdescription.refuses hdeep,
    hhanded.loads hvalid hconfig⟩

end Masquerade
