/-
  Masquerade.Proofs.Wellformed — WHICH WIRES OPEN.

  Nothing is assumed of a wire here: its bytes may be anyone's.  A whole
  chunk is well-formed if something authenticates under the nonce at its
  front, and what does is a length within the capacity, so much data, and
  padding.  What the padding is plays no role.  A chunk that is not
  well-formed is faulty, for one of two reasons.

  A wire opens if and only if it is one or more whole chunks that are all
  well-formed, and then it opens to their data in order.  Any other wire is
  refused for the first thing that is wrong with it: its length before any
  of its chunks, and the first faulty chunk before the others.

  Main results:
    * `Cipher.openChunk_eq_ok_iff`, `Cipher.openChunk_eq_error_iff` — which
      chunks open.
    * `Cipher.openChunks_append` — chunks are opened one by one.
    * `Cipher.opens_exactly_wellformed` — which wires open.
-/
import Masquerade.Proofs.Ranges
import Mathlib.Data.List.Forall2

namespace Masquerade

/-! ## §1. Pieces of a longer string -/

namespace Bytes

/-- Behind a string that is whole pieces the cutting begins anew. -/
theorem pieces_append {size : Nat} (hsize : size ≠ 0) (first second : Bytes) :
    size ∣ first.length → pieces size (first ++ second) = pieces size first ++ pieces size second := by
  induction first using pieces.induct size with
  | case1 first hnone =>
      intro _
      obtain rfl : first = [] := hnone.resolve_left hsize
      rw [pieces_nil]
      rfl
  | case2 first hsome ih =>
      intro hwhole
      have hfirst : first ≠ [] := fun hnone => hsome (.inr hnone)
      have hle : size ≤ first.length := Nat.le_of_dvd (List.length_pos_iff.mpr hfirst) hwhole
      have hboth : first ++ second ≠ [] := fun hnone => hfirst (List.append_eq_nil_iff.mp hnone).1
      have hrest : size ∣ (first.drop size).length := by
        rw [List.length_drop]
        exact Nat.dvd_sub hwhole (Nat.dvd_refl size)
      rw [pieces_cons hsize hboth, pieces_cons hsize hfirst, List.take_append_of_le_length hle,
        List.drop_append_of_le_length hle, ih hrest]
      rfl

end Bytes

namespace Cipher

variable {c : Cipher}

/-! ## §2. Chunks -/

/-- What authenticates in a chunk, under the nonce at its front. -/
def authentic? (c : Cipher) (chunk : Bytes) : Option Bytes :=
  Aead.decrypt? c.key (chunk.take Aead.nonceSize) (chunk.drop Aead.nonceSize)

/-- **A well-formed chunk** and its data: what authenticates is the length of
    the data, the data, and some padding. -/
structure Wellformed (c : Cipher) (chunk data : Bytes) : Prop where
  whole : chunk.length = c.chunkSize
  fits : data.length ≤ c.capacity
  opens : ∃ padding,
    c.authentic? chunk = some (Bytes.ofNatLE lengthSize data.length ++ (data ++ padding))

/-- **What is wrong with a chunk** that does not open. -/
inductive Faulty (c : Cipher) (chunk : Bytes) : Error → Prop where
  /-- Nothing authenticates. -/
  | forged (h : c.authentic? chunk = none) : Faulty c chunk (.crypto .notAuthentic)
  /-- Something does, but its length is beyond the capacity. -/
  | overlong {payload : Bytes} (h : c.authentic? chunk = some payload)
      (hlong : c.capacity < Bytes.toNatLE (payload.take lengthSize)) :
      Faulty c chunk
        (.invalidMessage (.beyondCapacity (Bytes.toNatLE (payload.take lengthSize)) c.capacity))

theorem openChunk_of_forged {chunk : Bytes} (h : c.authentic? chunk = none) :
    c.openChunk chunk = .error (.crypto .notAuthentic) := by
  unfold authentic? at h
  unfold openChunk
  rw [h]

theorem openChunk_of_authentic {chunk payload : Bytes} (h : c.authentic? chunk = some payload) :
    c.openChunk chunk = c.dataOf payload := by
  unfold authentic? at h
  unfold openChunk
  rw [h]

/-- A payload of the right size whose length is within the capacity is that
    length, the data, and padding. -/
theorem exists_padding {payload data : Bytes} (hpayload : payload.length = lengthSize + c.capacity)
    (h : c.dataOf payload = .ok data) :
    data.length ≤ c.capacity
      ∧ ∃ padding, payload = Bytes.ofNatLE lengthSize data.length ++ (data ++ padding) := by
  unfold dataOf at h
  dsimp only at h
  split at h
  next hle =>
    injection h with h
    have hcode : (payload.take lengthSize).length = lengthSize := by
      rw [List.length_take]
      omega
    have hlength : data.length = Bytes.toNatLE (payload.take lengthSize) := by
      rw [← h, List.length_take, List.length_drop]
      omega
    -- the two bytes of the length are the code of the length
    have hword : Bytes.ofNatLE lengthSize data.length = payload.take lengthSize := by
      have hback := Bytes.ofNatLE_toNatLE (payload.take lengthSize)
      rw [hcode] at hback
      rw [hlength, hback]
    have hdata : data = (payload.drop lengthSize).take data.length := by
      rw [hlength]
      exact h.symm
    refine ⟨by omega, (payload.drop lengthSize).drop data.length, ?_⟩
    calc payload
        = payload.take lengthSize ++ payload.drop lengthSize :=
          (List.take_append_drop lengthSize payload).symm
      _ = payload.take lengthSize ++ ((payload.drop lengthSize).take data.length
            ++ (payload.drop lengthSize).drop data.length) := by
          rw [List.take_append_drop data.length]
      _ = Bytes.ofNatLE lengthSize data.length ++ (data
            ++ (payload.drop lengthSize).drop data.length) := by
          rw [hword, ← hdata]
  next => cases h

/-- **A whole chunk opens to some data if and only if it is well-formed** with
    that data. -/
theorem openChunk_eq_ok_iff {chunk : Bytes} (hchunk : chunk.length = c.chunkSize) (data : Bytes) :
    c.openChunk chunk = .ok data ↔ c.Wellformed chunk data := by
  constructor
  · intro h
    cases hopen : c.authentic? chunk with
    | none =>
        rw [openChunk_of_forged hopen] at h
        cases h
    | some payload =>
        rw [openChunk_of_authentic hopen] at h
        obtain ⟨hfits, padding, hpayload⟩ := exists_padding (length_of_payload hchunk hopen) h
        exact ⟨hchunk, hfits, padding, by rw [hopen, hpayload]⟩
  · rintro ⟨-, hfits, padding, hopen⟩
    rw [openChunk_of_authentic hopen]
    exact c.dataOf_code hfits padding

/-- **A chunk does not open if and only if it is faulty.** -/
theorem openChunk_eq_error_iff (chunk : Bytes) (e : Error) :
    c.openChunk chunk = .error e ↔ c.Faulty chunk e := by
  constructor
  · intro h
    cases hopen : c.authentic? chunk with
    | none =>
        rw [openChunk_of_forged hopen] at h
        injection h with h
        rw [← h]
        exact .forged hopen
    | some payload =>
        rw [openChunk_of_authentic hopen] at h
        unfold dataOf at h
        dsimp only at h
        split at h
        next => cases h
        next hlong =>
          injection h with h
          rw [← h]
          exact .overlong hopen (by omega)
  · intro h
    cases h with
    | forged hopen => exact openChunk_of_forged hopen
    | overlong hopen hlong =>
        rw [openChunk_of_authentic hopen]
        unfold dataOf
        exact if_neg (by omega)

/-! ## §3. Chunks in a row -/

/-- **Chunks are opened one by one,** and the first that does not open ends
    it. -/
theorem openChunks_append (first second : List Bytes) :
    c.openChunks (first ++ second) = (do
      let data ← c.openChunks first
      let more ← c.openChunks second
      return data ++ more) := by
  induction first with
  | nil =>
      rw [List.nil_append, openChunks]
      cases c.openChunks second <;> rfl
  | cons chunk first ih =>
      rw [List.cons_append, openChunks, openChunks, ih]
      cases c.openChunk chunk with
      | error e => rfl
      | ok data =>
          cases c.openChunks first with
          | error e => rfl
          | ok more =>
              cases c.openChunks second with
              | error e => rfl
              | ok rest => exact congrArg Except.ok (List.append_assoc ..).symm

/-- **Whole chunks open if and only if all of them are well-formed,** and then
    to their data in order. -/
theorem openChunks_eq_ok_iff (chunks : List Bytes) :
    (∀ chunk ∈ chunks, chunk.length = c.chunkSize) → ∀ (plain : Bytes),
      (c.openChunks chunks = .ok plain ↔
        ∃ data, List.Forall₂ c.Wellformed chunks data ∧ plain = data.flatten) := by
  induction chunks with
  | nil =>
      intro _ plain
      constructor
      · intro h
        injection h with h
        exact ⟨[], .nil, h.symm⟩
      · rintro ⟨data, hdata, rfl⟩
        cases hdata
        rfl
  | cons chunk chunks ih =>
      intro hchunks plain
      obtain ⟨hchunk, hmore⟩ := List.forall_mem_cons.mp hchunks
      rw [openChunks]
      constructor
      · intro h
        cases hopen : c.openChunk chunk with
        | error e =>
            rw [hopen] at h
            cases h
        | ok first =>
            cases hrest : c.openChunks chunks with
            | error e =>
                rw [hopen, hrest] at h
                cases h
            | ok rest =>
                rw [hopen, hrest] at h
                injection h with h
                obtain ⟨data, hdata, rfl⟩ := (ih hmore rest).mp hrest
                exact ⟨first :: data, .cons ((openChunk_eq_ok_iff hchunk first).mp hopen) hdata,
                  h.symm⟩
      · rintro ⟨_, hdata, rfl⟩
        cases hdata with
        | cons hfirst hrest =>
            rw [(openChunk_eq_ok_iff hchunk _).mpr hfirst, (ih hmore _).mpr ⟨_, hrest, rfl⟩]
            rfl

/-- **Whole chunks do not open if and only if one of them is faulty** behind
    others that are well-formed, and then for its reason. -/
theorem openChunks_eq_error_iff (chunks : List Bytes) :
    (∀ chunk ∈ chunks, chunk.length = c.chunkSize) → ∀ (e : Error),
      (c.openChunks chunks = .error e ↔
        ∃ before chunk after data, chunks = before ++ chunk :: after
          ∧ List.Forall₂ c.Wellformed before data ∧ c.Faulty chunk e) := by
  induction chunks with
  | nil =>
      intro _ e
      constructor
      · intro h
        cases h
      · rintro ⟨before, chunk, after, -, hnone, -⟩
        exact absurd hnone.symm (List.append_ne_nil_of_right_ne_nil _ (List.cons_ne_nil _ _))
  | cons chunk chunks ih =>
      intro hchunks e
      obtain ⟨hchunk, hmore⟩ := List.forall_mem_cons.mp hchunks
      rw [openChunks]
      constructor
      · intro h
        cases hopen : c.openChunk chunk with
        | error e' =>
            rw [hopen] at h
            injection h with h
            subst h
            exact ⟨[], chunk, chunks, [], rfl, .nil, (openChunk_eq_error_iff chunk _).mp hopen⟩
        | ok first =>
            cases hrest : c.openChunks chunks with
            | ok rest =>
                rw [hopen, hrest] at h
                cases h
            | error e' =>
                rw [hopen, hrest] at h
                injection h with h
                subst h
                obtain ⟨before, bad, after, data, rfl, hbefore, hbad⟩ := (ih hmore e').mp hrest
                exact ⟨chunk :: before, bad, after, first :: data, rfl,
                  .cons ((openChunk_eq_ok_iff hchunk first).mp hopen) hbefore, hbad⟩
      · rintro ⟨before, bad, after, data, hsplit, hbefore, hbad⟩
        cases hbefore with
        | nil =>
            injection hsplit with hfirst _
            rw [hfirst, (openChunk_eq_error_iff bad e).mpr hbad]
        | @cons first plain before data hfirst hbefore =>
            injection hsplit with heq hrest
            subst heq
            rw [(openChunk_eq_ok_iff hchunk plain).mpr hfirst,
              (ih hmore e).mpr ⟨before, bad, after, data, hrest, hbefore, hbad⟩]

/-! ## §4. Wires -/

/-- **Why a wire is refused:** for its length before any of its chunks, and
    for its first faulty chunk before the others. -/
inductive Refuses (c : Cipher) (wire : Bytes) : Error → Prop where
  /-- There is less than a chunk. -/
  | short (h : wire.length < c.chunkSize) : Refuses c wire (.buffer c.chunkSize wire.length)
  /-- There is more than a chunk, but not in whole chunks. -/
  | ragged (hle : c.chunkSize ≤ wire.length) (h : ¬ c.chunkSize ∣ wire.length) :
      Refuses c wire (.invalidMessage (.ragged wire.length c.chunkSize))
  /-- There are whole chunks, and one behind well-formed ones is faulty. -/
  | faulty {before after data : List Bytes} {chunk : Bytes} {e : Error}
      (hwhole : c.chunkSize ∣ wire.length)
      (hpieces : Bytes.pieces c.chunkSize wire = before ++ chunk :: after)
      (hbefore : List.Forall₂ c.Wellformed before data) (hchunk : c.Faulty chunk e) :
      Refuses c wire e

theorem unpolish_of_short {wire : Bytes} (h : wire.length < c.chunkSize) :
    c.unpolish wire = .error (.buffer c.chunkSize wire.length) := by
  unfold unpolish
  rw [if_pos h]

theorem unpolish_of_ragged {wire : Bytes} (hle : c.chunkSize ≤ wire.length)
    (h : ¬ c.chunkSize ∣ wire.length) :
    c.unpolish wire = .error (.invalidMessage (.ragged wire.length c.chunkSize)) := by
  unfold unpolish
  rw [if_neg (by omega), if_pos fun hzero => h (Nat.dvd_of_mod_eq_zero hzero)]

/-- Whole chunks, at least one, are opened in a row. -/
theorem unpolish_of_whole {wire : Bytes} (hsome : wire ≠ []) (hwhole : c.chunkSize ∣ wire.length) :
    c.unpolish wire = c.openChunks (Bytes.pieces c.chunkSize wire) := by
  have hle : c.chunkSize ≤ wire.length := Nat.le_of_dvd (List.length_pos_iff.mpr hsome) hwhole
  unfold unpolish
  rw [if_neg (by omega), if_neg fun hne => hne (Nat.mod_eq_zero_of_dvd hwhole)]

/-- **A wire opens if and only if it is whole chunks, at least one, that are
    all well-formed,** and then to their data in order. -/
theorem unpolish_eq_ok_iff (wire plain : Bytes) :
    c.unpolish wire = .ok plain ↔
      wire ≠ [] ∧ c.chunkSize ∣ wire.length
        ∧ ∃ data, List.Forall₂ c.Wellformed (Bytes.pieces c.chunkSize wire) data
          ∧ plain = data.flatten := by
  have hpos := c.chunkSize_pos
  by_cases hshort : wire.length < c.chunkSize
  · rw [unpolish_of_short hshort]
    refine ⟨nofun, ?_⟩
    rintro ⟨hsome, hwhole, -⟩
    have hle := Nat.le_of_dvd (List.length_pos_iff.mpr hsome) hwhole
    omega
  · by_cases hwhole : c.chunkSize ∣ wire.length
    · have hsome : wire ≠ [] := by
        intro hnone
        rw [hnone, List.length_nil] at hshort
        omega
      rw [unpolish_of_whole hsome hwhole,
        openChunks_eq_ok_iff _ fun _ hmem => Bytes.length_of_mem_pieces hwhole hmem]
      exact ⟨fun h => ⟨hsome, hwhole, h⟩, fun h => h.2.2⟩
    · rw [unpolish_of_ragged (by omega) hwhole]
      exact ⟨nofun, fun h => absurd h.2.1 hwhole⟩

/-- **A wire does not open if and only if there is a reason to refuse it,** and
    there is one reason only. -/
theorem unpolish_eq_error_iff (wire : Bytes) (e : Error) :
    c.unpolish wire = .error e ↔ c.Refuses wire e := by
  constructor
  · intro h
    by_cases hshort : wire.length < c.chunkSize
    · rw [unpolish_of_short hshort] at h
      injection h with h
      rw [← h]
      exact .short hshort
    · by_cases hwhole : c.chunkSize ∣ wire.length
      · have hsome : wire ≠ [] := by
          intro hnone
          have hpos := c.chunkSize_pos
          rw [hnone, List.length_nil] at hshort
          omega
        rw [unpolish_of_whole hsome hwhole] at h
        obtain ⟨before, chunk, after, data, hpieces, hbefore, hchunk⟩ :=
          (openChunks_eq_error_iff _ (fun _ hmem => Bytes.length_of_mem_pieces hwhole hmem) e).mp h
        exact .faulty hwhole hpieces hbefore hchunk
      · rw [unpolish_of_ragged (by omega) hwhole] at h
        injection h with h
        rw [← h]
        exact .ragged (by omega) hwhole
  · intro h
    cases h with
    | short hshort => exact unpolish_of_short hshort
    | ragged hle hwhole => exact unpolish_of_ragged hle hwhole
    | @faulty before after data chunk _ hwhole hpieces hbefore hchunk =>
        have hsome : wire ≠ [] := by
          intro hnone
          rw [hnone, Bytes.pieces_nil] at hpieces
          exact absurd hpieces.symm
            (List.append_ne_nil_of_right_ne_nil _ (List.cons_ne_nil _ _))
        rw [unpolish_of_whole hsome hwhole]
        exact (openChunks_eq_error_iff _
          (fun _ hmem => Bytes.length_of_mem_pieces hwhole hmem) e).mpr
          ⟨before, chunk, after, data, hpieces, hbefore, hchunk⟩

/-- **WHICH WIRES OPEN.**  Whatever bytes a wire is made of,

    • opening it reads nothing beyond the bytes there are,
    • it opens if and only if it is one or more whole chunks, in each of
      which there authenticates a length within the capacity, so much data,
      and any padding; and then to the data of the chunks in order,
    • it is refused for being shorter than a chunk or not in whole chunks,
      before any chunk is opened, and else for its first faulty chunk,
    • and where it is whole chunks, with more of them behind it, these are
      opened after it, and the first that fails decides. -/
theorem opens_exactly_wellformed (c : Cipher) (wire : Bytes) :
    c.unpolish? wire = some (c.unpolish wire)
      ∧ (∀ plain, c.unpolish wire = .ok plain ↔
          wire ≠ [] ∧ c.chunkSize ∣ wire.length
            ∧ ∃ data, List.Forall₂ c.Wellformed (Bytes.pieces c.chunkSize wire) data
              ∧ plain = data.flatten)
      ∧ (∀ e, c.unpolish wire = .error e ↔ c.Refuses wire e)
      ∧ ∀ (more : Bytes), wire ≠ [] → more ≠ [] → c.chunkSize ∣ wire.length →
          c.chunkSize ∣ more.length →
          c.unpolish (wire ++ more) = (do
            let plain ← c.unpolish wire
            let rest ← c.unpolish more
            return plain ++ rest) := by
  refine ⟨c.unpolish?_eq wire, unpolish_eq_ok_iff wire, unpolish_eq_error_iff wire, ?_⟩
  intro more hwire hmore hwhole hwhole'
  have hpos := c.chunkSize_pos
  have hboth : wire ++ more ≠ [] := fun hnone => hwire (List.append_eq_nil_iff.mp hnone).1
  have hlength : c.chunkSize ∣ (wire ++ more).length := by
    rw [List.length_append]
    exact Nat.dvd_add hwhole hwhole'
  rw [unpolish_of_whole hboth hlength, unpolish_of_whole hwire hwhole,
    unpolish_of_whole hmore hwhole', Bytes.pieces_append (by omega) wire more hwhole,
    openChunks_append]

/-- A chunk with one byte opens.  Behind it, an authentic chunk that claims
    65535 bytes in room for 63 makes the whole fail, for that reason. -/
theorem opens_exactly_wellformed_overlong :
    ∃ (c : Cipher) (good bad : Bytes),
      good ≠ [] ∧ bad ≠ [] ∧ c.chunkSize ∣ good.length ∧ c.chunkSize ∣ bad.length
        ∧ c.unpolish good = .ok [7]
        ∧ c.unpolish (good ++ bad) = .error (.invalidMessage (.beyondCapacity 65535 63)) := by
  let c : Cipher := ⟨List.replicate 32 0, 93, by decide, by decide⟩
  let nonce : Bytes := List.replicate 12 1
  let payload : Bytes := List.replicate 65 255
  have hnonce : nonce.length = Aead.nonceSize := rfl
  have hlength : (nonce ++ Aead.encrypt c.key nonce payload).length = 93 := by
    rw [List.length_append, Aead.length_encrypt]
    rfl
  have hlength' : (c.sealChunk nonce [7]).length = 93 := c.length_sealChunk nonce [7] hnonce
  have hbad : nonce ++ Aead.encrypt c.key nonce payload ≠ [] := List.cons_ne_nil _ _
  have hgood : c.sealChunk nonce [7] ≠ [] := List.cons_ne_nil _ _
  have hopens : c.unpolish (c.sealChunk nonce [7]) = .ok [7] := by
    rw [unpolish_of_length hlength']
    exact c.openChunk_sealChunk nonce [7] hnonce (by decide)
  have hfails : c.unpolish (nonce ++ Aead.encrypt c.key nonce payload)
      = .error (.invalidMessage (.beyondCapacity 65535 63)) := by
    rw [c.unpolish_encrypt hnonce rfl]
    rfl
  have hwhole : c.chunkSize ∣ (c.sealChunk nonce [7]).length := by
    rw [hlength']
  have hwhole' : c.chunkSize ∣ (nonce ++ Aead.encrypt c.key nonce payload).length := by
    rw [hlength]
  refine ⟨c, _, _, hgood, hbad, hwhole, hwhole', hopens, ?_⟩
  rw [(opens_exactly_wellformed c (c.sealChunk nonce [7])).2.2.2 _ hgood hbad hwhole hwhole', hopens,
    hfails]
  rfl

end Cipher

end Masquerade
