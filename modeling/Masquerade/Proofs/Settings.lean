/-
  Masquerade.Proofs.Settings — STORED CONFIGURATIONS ARE READ BACK AS
  WRITTEN.

  A configuration holds keys.  A public key is a point of the plane, and
  only points of the curve have a code that reads back, so the laws of
  storage speak of configurations whose public keys lie on the curve.  Every
  configuration that is read is one of these, in whatever code its keys
  stood.

  Main results:
    * `readPublicKey_encode`, `readPrivateKey_encode` — keys read back.
    * `Toneburst.lawful` — tonebursts are stored lawfully.
    * `ClientConfig.lawful`, `ServerConfig.lawful` — so are configurations
      with public keys on the curve.
-/
import Masquerade.Proofs.Storage

namespace Masquerade

open Stored (Lawful Any)

/-! ## §1. Outcomes of reading -/

theorem toOption_eq_some {ε α : Type} {outcome : Except ε α} {a : α} :
    outcome.toOption = some a ↔ outcome = .ok a := by
  cases outcome with
  | ok b => exact ⟨fun h => congrArg Except.ok (Option.some.inj h), fun h => by cases h; rfl⟩
  | error e => exact ⟨nofun, nofun⟩

theorem required_some {α : Type} (a : α) : required (some a) = .ok a := rfl

theorem toOption_required {α : Type} (a? : Option α) : (required a?).toOption = a? := by
  cases a? <;> rfl

theorem required_eq_ok {α : Type} {a? : Option α} {a : α} : required a? = .ok a ↔ a? = some a := by
  rw [← toOption_eq_some, toOption_required]

/-- A reader that calls what it cannot read malformed. -/
theorem Stored.Lawful.required {α : Type} {valid : α → Prop} {write : α → Json}
    {read : Json → Option α} (h : Lawful valid write read) :
    Lawful valid write (fun json => (Masquerade.required (read json)).toOption) where
  plain := h.plain
  reads hvalid := (toOption_required _).trans (h.reads hvalid)
  shallow hread := h.shallow ((toOption_required _).symm.trans hread)

/-- What a chain of two steps returns. -/
theorem exists_of_bind_eq_ok {ε α β : Type} {first : Except ε α} {next : α → Except ε β} {b : β}
    (h : first >>= next = .ok b) : ∃ a, first = .ok a ∧ next a = .ok b := by
  cases first with
  | ok a => exact ⟨a, rfl, h⟩
  | error e => cases h

theorem exists_of_map_eq_ok {ε α β : Type} {first : Except ε α} {f : α → β} {b : β}
    (h : first.map f = .ok b) : ∃ a, first = .ok a ∧ f a = b := by
  cases first with
  | ok a => exact ⟨a, rfl, Except.ok.inj h⟩
  | error e => cases h

/-! ## §2. Keys -/

theorem readBytes_bytesJson (bytes : Bytes) : readBytes (some (bytesJson bytes)) = .ok bytes := by
  unfold readBytes bytesJson
  dsimp only
  rw [Base64.decode_encodeText]

/-- **A public key on the curve reads back.** -/
theorem readPublicKey_encode {p : P256.Point} (h : p.onCurve = true) :
    readPublicKey (some (bytesJson p.encode)) = .ok p := by
  unfold readPublicKey
  rw [readBytes_bytesJson]
  dsimp only [bind, Except.bind]
  rw [P256.decode?_encode p h]

/-- **A private key reads back.** -/
theorem readPrivateKey_encode (k : P256.Scalar) :
    readPrivateKey (some (bytesJson k.encode)) = .ok k := by
  unfold readPrivateKey
  rw [readBytes_bytesJson]
  dsimp only [bind, Except.bind]
  rw [P256.Scalar.decode?_encode k]

/-- A public key that is read lies on the curve. -/
theorem onCurve_of_readPublicKey {slot : Option Json} {p : P256.Point}
    (h : readPublicKey slot = .ok p) : p.onCurve = true := by
  obtain ⟨bytes, -, h⟩ := exists_of_bind_eq_ok h
  split at h
  · rename_i point hpoint
    rw [← Except.ok.inj h]
    exact P256.onCurve_of_decode? hpoint
  · cases h

theorem ifPresent_some {α : Type} {read : Option Json → Except EncodingFault α} {json : Json} {a : α}
    (h : read (some json) = .ok a) : ifPresent read (some json) = .ok (some a) := by
  unfold ifPresent
  rw [Option.isSome_some, if_pos rfl, h]
  rfl

theorem of_ifPresent {α : Type} {read : Option Json → Except EncodingFault α} {slot : Option Json}
    {a : α} (h : ifPresent read slot = .ok (some a)) : read slot = .ok a := by
  unfold ifPresent at h
  split at h
  · obtain ⟨b, hb, heq⟩ := exists_of_map_eq_ok h
    rw [hb, Option.some.inj heq]
  · cases h

/-! ## §3. Polishes -/

/-- A client's polish reads back if its key lies on the curve. -/
theorem SilverClient.ofJson_toJson {config : SilverClient} (h : config.serverKey.onCurve = true) :
    SilverClient.ofJson config.toJson = .ok config := by
  -- any stored key and size that are read as these will do; how they are stored is kept apart
  have hread : ∀ key size : Json, readPublicKey (some key) = .ok config.serverKey →
      readChunkSize (some size) = .ok config.chunkSize →
      SilverClient.ofJson (.obj [("type", .str "silver"), ("server_public_key", key),
        ("chunk_size", size)]) = .ok config := by
    intro key size hkey hsize
    simp [ofJson, variant?, tagName?, Json.field?, required, Shape.slots, fields, bind, Except.bind,
      ifPresent_some hkey, ifPresent_some hsize]
  exact hread _ _ (readPublicKey_encode h) (readChunkSize_toNat config.chunkSize)

/-- A server's polish reads back if its public key lies on the curve. -/
theorem SilverServer.ofJson_toJson {config : SilverServer} (h : config.serverKey.onCurve = true) :
    SilverServer.ofJson config.toJson = .ok config := by
  have hread : ∀ key secret size : Json, readPublicKey (some key) = .ok config.serverKey →
      readPrivateKey (some secret) = .ok config.privateKey →
      readChunkSize (some size) = .ok config.chunkSize →
      SilverServer.ofJson (.obj [("type", .str "silver"), ("server_public_key", key),
        ("server_private_key", secret), ("chunk_size", size)]) = .ok config := by
    intro key secret size hkey hsecret hsize
    simp [ofJson, variant?, tagName?, Json.field?, required, Shape.slots, fields, bind, Except.bind,
      ifPresent_some hkey, ifPresent_some hsecret, ifPresent_some hsize]
  exact hread _ _ _ (readPublicKey_encode h) (readPrivateKey_encode config.privateKey)
    (readChunkSize_toNat config.chunkSize)

/-- A client's polish that is read has its key on the curve. -/
theorem SilverClient.onCurve_of_ofJson {json : Json} {config : SilverClient}
    (h : SilverClient.ofJson json = .ok config) :
    config.serverKey.onCurve = true ∧ 0 < json.nesting := by
  obtain ⟨⟨kind, shape⟩, hvariant, h⟩ := exists_of_bind_eq_ok h
  refine ⟨?_, (Shape.below_variant? (required_eq_ok.mp hvariant)).2⟩
  dsimp only at h
  split at h
  · -- an object's fields are read as far as they are there, and only then missed
    obtain ⟨chunkSize, -, h⟩ := exists_of_bind_eq_ok h
    obtain ⟨serverKey, hkey, h⟩ := exists_of_bind_eq_ok h
    obtain ⟨key, hpresent, h⟩ := exists_of_bind_eq_ok h
    obtain ⟨size, -, h⟩ := exists_of_bind_eq_ok h
    rw [required_eq_ok.mp hpresent] at hkey
    rw [← Except.ok.inj h]
    exact onCurve_of_readPublicKey (of_ifPresent hkey)
  · obtain ⟨serverKey, hkey, h⟩ := exists_of_bind_eq_ok h
    obtain ⟨chunkSize, -, h⟩ := exists_of_bind_eq_ok h
    obtain ⟨_, -, h⟩ := exists_of_bind_eq_ok h
    rw [← Except.ok.inj h]
    exact onCurve_of_readPublicKey hkey
  · cases h

/-- A server's polish that is read has its public key on the curve. -/
theorem SilverServer.onCurve_of_ofJson {json : Json} {config : SilverServer}
    (h : SilverServer.ofJson json = .ok config) :
    config.serverKey.onCurve = true ∧ 0 < json.nesting := by
  obtain ⟨⟨kind, shape⟩, hvariant, h⟩ := exists_of_bind_eq_ok h
  refine ⟨?_, (Shape.below_variant? (required_eq_ok.mp hvariant)).2⟩
  dsimp only at h
  split at h
  · obtain ⟨chunkSize, -, h⟩ := exists_of_bind_eq_ok h
    obtain ⟨privateKey, -, h⟩ := exists_of_bind_eq_ok h
    obtain ⟨serverKey, hkey, h⟩ := exists_of_bind_eq_ok h
    obtain ⟨key, hpresent, h⟩ := exists_of_bind_eq_ok h
    obtain ⟨secret, -, h⟩ := exists_of_bind_eq_ok h
    obtain ⟨size, -, h⟩ := exists_of_bind_eq_ok h
    rw [required_eq_ok.mp hpresent] at hkey
    rw [← Except.ok.inj h]
    exact onCurve_of_readPublicKey (of_ifPresent hkey)
  · obtain ⟨serverKey, hkey, h⟩ := exists_of_bind_eq_ok h
    obtain ⟨privateKey, -, h⟩ := exists_of_bind_eq_ok h
    obtain ⟨chunkSize, -, h⟩ := exists_of_bind_eq_ok h
    obtain ⟨_, -, h⟩ := exists_of_bind_eq_ok h
    rw [← Except.ok.inj h]
    exact onCurve_of_readPublicKey hkey
  · cases h

theorem SilverClient.lawful : Lawful (fun config : SilverClient => config.serverKey.onCurve = true)
    SilverClient.toJson (fun json => (SilverClient.ofJson json).toOption) where
  plain config :=
    Json.plain_tagged _ _ (List.forall_mem_cons.mpr ⟨.str _,
      List.forall_mem_singleton.mpr (Json.plain_word config.chunkSize)⟩)
  reads h := toOption_eq_some.mpr (ofJson_toJson h)
  shallow h := onCurve_of_ofJson (toOption_eq_some.mp h)

theorem SilverServer.lawful : Lawful (fun config : SilverServer => config.serverKey.onCurve = true)
    SilverServer.toJson (fun json => (SilverServer.ofJson json).toOption) where
  plain config :=
    Json.plain_tagged _ _ (List.forall_mem_cons.mpr ⟨.str _, List.forall_mem_cons.mpr ⟨.str _,
      List.forall_mem_singleton.mpr (Json.plain_word config.chunkSize)⟩⟩)
  reads h := toOption_eq_some.mpr (ofJson_toJson h)
  shallow h := onCurve_of_ofJson (toOption_eq_some.mp h)

/-! ## §4. Tonebursts -/

theorem Description.toJson_ne_null (description : Description) : description.toJson ≠ .null := nofun

theorem Instance.toJson_ne_null (inst : Instance) : inst.toJson ≠ .null := nofun

/-- **What may be missing:** what is read of it is valid, and nests no deeper
    as written. -/
theorem shallow_of_optional? {α : Type} {valid : α → Prop} {write : α → Json}
    {read : Json → Option α} (h : Lawful valid write read) {slot : Option Json} {a? : Option α}
    {n : Nat} (hread : Json.optional? read slot = some a?)
    (hslot : ∀ value ∈ slot, value.nesting < n) (hpos : 0 < n) :
    (∀ a ∈ a?, valid a) ∧ (optionJson write a?).nesting < n := by
  cases slot with
  | none =>
      obtain rfl := Option.some.inj hread
      exact ⟨nofun, hpos⟩
  | some value =>
      cases value with
      | null =>
          obtain rfl := Option.some.inj hread
          exact ⟨nofun, hpos⟩
      | _ =>
          obtain ⟨a, ha, rfl⟩ := Option.map_eq_some_iff.mp hread
          obtain ⟨hvalid, hle⟩ := h.shallow ha
          refine ⟨?_, Nat.lt_of_le_of_lt hle (hslot _ rfl)⟩
          intro a' ha'
          rw [← Option.some.inj ha']
          exact hvalid

theorem Toneburst.lawful : Lawful Any Toneburst.toJson Toneburst.ofJson? where
  plain config := by
    refine Json.plain_tagged _ _ (List.forall_mem_cons.mpr ⟨?_, List.forall_mem_cons.mpr ⟨?_,
      List.forall_mem_singleton.mpr (.bool _)⟩⟩)
    · cases config.add with
      | none => exact .null
      | some inst => exact (Instance.lawful .inner).plain inst
    · cases config.remove with
      | none => exact .null
      | some description => exact (Description.lawful .inner).plain description
  reads := by
    intro config _
    have hadd := ((Instance.lawful .inner).optional Instance.toJson_ne_null).reads
      fun inst (_ : inst ∈ config.add) => trivial
    have hremove := ((Description.lawful .inner).optional Description.toJson_ne_null).reads
      fun description (_ : description ∈ config.remove) => trivial
    simp [ofJson?, ofShape?, toJson, members, variant?, tagName?, Json.field?, Shape.exactSlots?,
      Shape.fits, Shape.slots, fields, hadd, hremove, Json.bool?]
  shallow := by
    intro json config h
    refine ⟨trivial, ?_⟩
    simp only [ofJson?, ofShape?, bind, Option.bind_eq_some_iff] at h
    obtain ⟨⟨kind, shape⟩, hvariant, slots, hslots, h⟩ := h
    obtain ⟨hbelow, hpos⟩ := Shape.below_variant? hvariant
    split at h
    · rename_i add remove speakFirst
      simp only [Option.bind_eq_some_iff] at h
      obtain ⟨add?, hadd, remove?, hremove, flag, -, heq⟩ := h
      obtain rfl := Option.some.inj heq
      have hadd := (shallow_of_optional? (Instance.lawful .inner) hadd
        (by rintro value rfl; exact hbelow.slot hslots List.mem_cons_self) hpos).2
      have hremove := (shallow_of_optional? (Description.lawful .inner) hremove
        (by rintro value rfl
            exact hbelow.slot hslots (List.mem_cons_of_mem _ List.mem_cons_self)) hpos).2
      simp only [toJson, members, Json.nesting, Json.nestingMembers, Json.nestingMember]
      omega
    · cases h

/-! ## §5. Configurations -/

theorem Toneburst.toJson_ne_null (config : Toneburst) : config.toJson ≠ .null := nofun

theorem SilverClient.toJson_ne_null (config : SilverClient) : config.toJson ≠ .null := nofun

theorem SilverServer.toJson_ne_null (config : SilverServer) : config.toJson ≠ .null := nofun

theorem readOption_eq_ok_iff {α : Type} {read : Json → Except EncodingFault α}
    {slot : Option Json} {a? : Option α} :
    readOption read slot = .ok a? ↔
      Json.optional? (fun json => (read json).toOption) slot = some a? := by
  cases slot with
  | none => exact ⟨fun h => congrArg some (Except.ok.inj h), fun h => congrArg Except.ok (Option.some.inj h)⟩
  | some value =>
      cases value with
      | null =>
          exact ⟨fun h => congrArg some (Except.ok.inj h),
            fun h => congrArg Except.ok (Option.some.inj h)⟩
      | _ =>
          unfold readOption Json.optional?
          dsimp only
          generalize read _ = outcome
          cases outcome with
          | ok a =>
              exact ⟨fun h => congrArg some (Except.ok.inj h),
                fun h => congrArg Except.ok (Option.some.inj h)⟩
          | error e => exact ⟨nofun, nofun⟩

/-- Both fields of a connection's configuration. -/
def connectionJson {α : Type} (write : α → Json) (toneburst : Option Toneburst) (polish : Option α) :
    Json :=
  .obj [("toneburst", optionJson Toneburst.toJson toneburst), ("polish", optionJson write polish)]

section

variable {α : Type} {valid : α → Prop} {write : α → Json}
  {readPolish : Json → Except EncodingFault α} {toneburst : Option Toneburst} {polish : Option α}

theorem plain_connectionJson
    (h : Lawful valid write (fun json => (readPolish json).toOption)) :
    (connectionJson write toneburst polish).Plain := by
  refine .obj (List.forall_mem_cons.mpr ⟨?_, List.forall_mem_singleton.mpr ?_⟩)
  · cases toneburst with
    | none => exact .null
    | some config => exact Toneburst.lawful.plain config
  · cases polish with
    | none => exact .null
    | some config => exact h.plain config

/-- **Both parts of a configuration read back.** -/
theorem readConnection_connectionJson
    (h : Lawful valid write (fun json => (readPolish json).toOption))
    (hnull : ∀ a, write a ≠ .null) (hvalid : ∀ a ∈ polish, valid a) :
    readConnection readPolish (connectionJson write toneburst polish) = .ok (toneburst, polish) := by
  have hpolish := readOption_eq_ok_iff.mpr ((h.optional hnull).reads hvalid)
  have htoneburst := readOption_eq_ok_iff.mpr
    ((Toneburst.lawful.required.optional Toneburst.toJson_ne_null).reads
      fun config (_ : config ∈ toneburst) => trivial)
  simp [readConnection, connectionJson, Shape.ofJson?, required_some, Shape.slots,
    connectionFields, Json.field?, hpolish, htoneburst, bind, Except.bind]

/-- **Whatever configuration is read** is valid, and nests no deeper as
    written. -/
theorem shallow_of_readConnection
    (h : Lawful valid write (fun json => (readPolish json).toOption)) {json : Json}
    (hread : readConnection readPolish json = .ok (toneburst, polish)) :
    (∀ a ∈ polish, valid a) ∧ (connectionJson write toneburst polish).nesting ≤ json.nesting := by
  obtain ⟨shape, hshape, hread⟩ := exists_of_bind_eq_ok hread
  obtain ⟨hbelow, hpos⟩ := Shape.below_ofJson? (required_eq_ok.mp hshape)
  -- the order in which the fields are looked at makes no difference
  have hfields : ∀ {first second : Option Json}, shape.slots connectionFields = [first, second] →
      readOption (fun value => required (Toneburst.ofJson? value)) first = .ok toneburst →
      readOption readPolish second = .ok polish →
      (∀ a ∈ polish, valid a) ∧ (connectionJson write toneburst polish).nesting ≤ json.nesting := by
    intro first second hslots hfirst hsecond
    obtain ⟨-, hfirst⟩ := shallow_of_optional? Toneburst.lawful.required (readOption_eq_ok_iff.mp hfirst)
      (by rintro value rfl
          exact hbelow connectionFields value (by rw [hslots]; exact List.mem_cons_self)) hpos
    obtain ⟨hvalid, hsecond⟩ := shallow_of_optional? h (readOption_eq_ok_iff.mp hsecond)
      (by rintro value rfl
          exact hbelow connectionFields value
            (by rw [hslots]; exact List.mem_cons_of_mem _ List.mem_cons_self)) hpos
    refine ⟨hvalid, ?_⟩
    simp only [connectionJson, Json.nesting, Json.nestingMembers, Json.nestingMember]
    omega
  dsimp only at hread
  split at hread
  · rename_i hslots
    obtain ⟨polish', hpolish, hread⟩ := exists_of_bind_eq_ok hread
    obtain ⟨toneburst', htoneburst, hread⟩ := exists_of_bind_eq_ok hread
    cases hread
    exact hfields hslots htoneburst hpolish
  · rename_i hslots
    obtain ⟨toneburst', htoneburst, hread⟩ := exists_of_bind_eq_ok hread
    obtain ⟨polish', hpolish, hread⟩ := exists_of_bind_eq_ok hread
    obtain ⟨_, -, hread⟩ := exists_of_bind_eq_ok hread
    cases hread
    exact hfields hslots htoneburst hpolish
  · cases hread

end

/-- The public key of a client's configuration, if it has one, lies on the
    curve. -/
def ClientConfig.Valid (config : ClientConfig) : Prop :=
  ∀ polish ∈ config.polish, polish.serverKey.onCurve = true

/-- The public key of a server's configuration, if it has one, lies on the
    curve. -/
def ServerConfig.Valid (config : ServerConfig) : Prop :=
  ∀ polish ∈ config.polish, polish.serverKey.onCurve = true

/-- **Clients' configurations** are stored lawfully. -/
theorem ClientConfig.lawful : Lawful ClientConfig.Valid ClientConfig.toJson
    (fun json => (ClientConfig.ofJson json).toOption) where
  plain config := plain_connectionJson SilverClient.lawful
  reads := by
    intro config hvalid
    refine toOption_eq_some.mpr ?_
    unfold ofJson
    show readConnection _ (connectionJson SilverClient.toJson config.toneburst config.polish) >>= _
      = _
    rw [readConnection_connectionJson SilverClient.lawful SilverClient.toJson_ne_null hvalid]
    rfl
  shallow := by
    intro json config h
    obtain ⟨⟨toneburst, polish⟩, hread, heq⟩ := exists_of_bind_eq_ok (toOption_eq_some.mp h)
    rw [← Except.ok.inj heq]
    exact shallow_of_readConnection SilverClient.lawful hread

/-- **Servers' configurations** are stored lawfully. -/
theorem ServerConfig.lawful : Lawful ServerConfig.Valid ServerConfig.toJson
    (fun json => (ServerConfig.ofJson json).toOption) where
  plain config := plain_connectionJson SilverServer.lawful
  reads := by
    intro config hvalid
    refine toOption_eq_some.mpr ?_
    unfold ofJson
    show readConnection _ (connectionJson SilverServer.toJson config.toneburst config.polish) >>= _
      = _
    rw [readConnection_connectionJson SilverServer.lawful SilverServer.toJson_ne_null hvalid]
    rfl
  shallow := by
    intro json config h
    obtain ⟨⟨toneburst, polish⟩, hread, heq⟩ := exists_of_bind_eq_ok (toOption_eq_some.mp h)
    rw [← Except.ok.inj heq]
    exact shallow_of_readConnection SilverServer.lawful hread

end Masquerade
