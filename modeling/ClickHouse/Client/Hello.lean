import ClickHouse.Client.State

/-!
# The Hello of a server

`ReceiveHello` reads the fields of a Hello into the members of `server_info_`,
which are never cleared: a member keeps the part of a field that had arrived
when the stream ended or failed, and, if the Hello has no such field, all that
it had before.
-/

namespace ClickHouse

open Kit List

section Readers

variable {σ τ : Type} [Source Error σ]

/-- A read from the stream beside the variable that is read into. -/
def fromStream {α : Type} (p : EStateM Error σ α) : EStateM Error (τ × σ) α :=
  zoom Prod.snd (fun stream s => (s.1, stream)) p

def assign (f : τ → τ) : EStateM Error (τ × σ) PUnit :=
  modify fun s => (f s.1, s.2)

/-- `WireFormat::ReadVarint64` from byte `i` on: the variable has the bytes before it. -/
def readVarintIntoLoop : Nat → Nat → EStateM Error (Nat × σ) Bool
  | 0, _ => pure false
  | fuel + 1, i => do
    match ← fromStream (Source.read 1) with
    | [byte] =>
      assign fun value => value ||| ((byte &&& 0x7F).toNat <<< (7 * i)) % 2 ^ 64
      if byte &&& 0x80 = 0 then pure true
      else readVarintIntoLoop fuel (i + 1)
    | _ => pure false

/-- `WireFormat::ReadVarint64` -/
def readVarint64Into : EStateM Error (Nat × σ) Bool := do
  assign fun _ => 0
  readVarintIntoLoop maxVarintBytes 0

/-- `WireFormat::ReadAll` into the `len` bytes of a string from `offset` on. -/
def readAllIntoLoop : Nat → Nat → Nat → EStateM Error (Bytes × σ) Bool
  | 0, _, len => pure (len = 0)
  | fuel + 1, offset, len =>
    if len = 0 then pure true
    else do
      let piece ← fromStream (Source.read len)
      if piece.isEmpty then pure false
      else do
        assign fun value => value.take offset ++ piece ++ value.drop (offset + piece.length)
        readAllIntoLoop fuel (offset + piece.length) (len - piece.length)

/-- `WireFormat::ReadString` -/
def readStringInto : EStateM Error (Bytes × σ) Bool := do
  match ← fromStream readVarint64 with
  | some len =>
    if len > maxStringLength then pure false
    else do
      -- `resize` keeps what the string had in its first `len` bytes
      assign fun value => value.take len ++ replicate (len - value.length) 0
      readAllIntoLoop len 0 len
  | none => pure false

/-- A read into a member of `server_info_`. -/
def readInfo (read : EStateM Error (τ × σ) Bool) (member : ServerInfo → τ)
    (update : τ → ServerInfo → ServerInfo) : EStateM Error (ServerInfo × σ) Bool :=
  zoom (fun s => (member s.1, s.2)) (fun d s => (update d.1 s.1, d.2)) read

/-- A field that is there from a revision on. -/
def readInfoSince (first : Nat) (read : EStateM Error (τ × σ) Bool) (member : ServerInfo → τ)
    (update : τ → ServerInfo → ServerInfo) : EStateM Error (ServerInfo × σ) Bool := do
  let s ← get
  if s.1.revision ≥ first then readInfo read member update else pure true

/-- The fields of a Hello packet, until one cannot be read. -/
def readServerInfo : EStateM Error (ServerInfo × σ) Bool := do
  if ← readInfo readStringInto ServerInfo.name fun name info => { info with name := name } then
  if ← readInfo readVarint64Into ServerInfo.versionMajor
      fun n info => { info with versionMajor := n } then
  if ← readInfo readVarint64Into ServerInfo.versionMinor
      fun n info => { info with versionMinor := n } then
  if ← readInfo readVarint64Into ServerInfo.revision fun n info => { info with revision := n } then
  if ← readInfoSince dbmsMinRevisionWithServerTimezone readStringInto ServerInfo.timezone
      fun timezone info => { info with timezone := timezone } then
  if ← readInfoSince dbmsMinRevisionWithServerDisplayName readStringInto ServerInfo.displayName
      fun name info => { info with displayName := name } then
  readInfoSince dbmsMinRevisionWithVersionPatch readVarint64Into ServerInfo.versionPatch
      fun n info => { info with versionPatch := n }
  else pure false
  else pure false
  else pure false
  else pure false
  else pure false
  else pure false

end Readers

/-! ## Fields that arrive -/

section Arriving

variable {σ τ : Type} [Source Error σ] {s t : σ}

omit [Source Error σ] in
theorem runs_fromStream {α : Type} {p : EStateM Error σ α} {a : α} (run : Runs p s a t) (old : τ) :
    Runs (fromStream p) (old, s) a (old, t) :=
  Runs.zoom run

omit [Source Error σ] in
theorem runs_assign (f : τ → τ) (old : τ) (s : σ) :
    Runs (assign f) (old, s) ⟨⟩ (f old, s) :=
  runs_modify _ _

theorem readVarintIntoLoop_of_readVarintLoop {fuel i value n : Nat}
    (run : Runs (readVarintLoop fuel i value) s (some n) t) :
    Runs (readVarintIntoLoop fuel i) (value, s) true (n, t) := by
  induction fuel generalizing i value s with
  | zero => cases run
  | succ fuel ih =>
    obtain ⟨bytes, m, reads, rest⟩ := runs_bind_iff.mp run
    refine (runs_fromStream reads value).bind ?_
    split at rest
    · rename_i byte
      refine (runs_assign _ value m).bind ?_
      split at rest
      · rename_i last
        obtain ⟨⟩ := rest
        rw [if_pos last]
        exact runs_pure _ _
      · rename_i more
        rw [if_neg more]
        exact ih rest
    · cases rest

theorem readVarint64Into_of_readVarint64 {n : Nat} (run : Runs readVarint64 s (some n) t)
    (old : Nat) : Runs readVarint64Into (old, s) true (n, t) :=
  (runs_assign _ old s).bind (readVarintIntoLoop_of_readVarintLoop run)

/-- If all bytes arrive, they replace those of the string from the offset on. -/
theorem readAllIntoLoop_of_readAllLoop {fuel offset len : Nat} {value bytes : Bytes}
    (run : Runs (readAllLoop fuel len) s bytes t) (complete : bytes.length = len)
    (fits : value.length = offset + len) :
    Runs (readAllIntoLoop fuel offset len) (value, s) true (value.take offset ++ bytes, t) := by
  induction fuel generalizing offset len value bytes s with
  | zero =>
    obtain ⟨⟩ := run
    subst complete
    rw [append_nil, take_of_length_le (show value.length ≤ offset from fits.le)]
    exact runs_pure _ _
  | succ fuel ih =>
    unfold readAllLoop at run
    unfold readAllIntoLoop
    split at run
    · rename_i none
      obtain ⟨⟩ := run
      rw [if_pos none, append_nil, take_of_length_le (by omega)]
      exact runs_pure _ _
    · rename_i some
      rw [if_neg some]
      obtain ⟨piece, m, reads, rest⟩ := runs_bind_iff.mp run
      refine (runs_fromStream reads value).bind ?_
      split at rest
      · obtain ⟨⟩ := rest
        exact absurd complete.symm some
      · rename_i nonempty
        rw [if_neg nonempty]
        refine (runs_assign _ value m).bind ?_
        obtain ⟨others, n, more, ends⟩ := runs_bind_iff.mp rest
        obtain ⟨⟩ := ends
        rw [length_append] at complete
        have done : (value.take offset ++ piece).length = offset + piece.length := by
          rw [length_append, length_take]
          omega
        have whole := ih more (by omega)
          (show (value.take offset ++ piece ++ value.drop (offset + piece.length)).length =
            (offset + piece.length) + (len - piece.length) by
              rw [length_append, done, length_drop]
              omega)
        rw [← done, take_left, done, append_assoc (value.take offset) piece others] at whole
        exact whole

theorem readStringInto_of_readString {value : Bytes} (run : Runs readString s (some value) t)
    (old : Bytes) : Runs readStringInto (old, s) true (value, t) := by
  obtain ⟨len, m, reads, rest⟩ := runs_bind_iff.mp run
  refine (runs_fromStream reads old).bind ?_
  split at rest
  · rename_i len
    show Runs (if len > maxStringLength then _ else _) _ _ _
    split at rest
    · cases rest
    · rename_i short
      rw [if_neg short]
      obtain ⟨bytes, n, arrives, ends⟩ := runs_bind_iff.mp rest
      split at ends
      · rename_i complete
        obtain ⟨⟩ := ends
        exact (runs_assign _ old m).bind (readAllIntoLoop_of_readAllLoop arrives complete (by
          simp only [length_append, length_take, length_replicate]
          omega))
      · cases ends
  · cases rest

end Arriving

section ReadingInto

variable {σ τ : Type} [LawfulSource Error σ]

open LawfulSource

/-- If the bytes arrive, the read returns true and has made `new` of `old`. -/
def ReadsInto (p : EStateM Error (τ × σ) Bool) (bs : Bytes) (old new : τ) : Prop :=
  ∀ ⦃input last : σ⦄ ⦃rest : Bytes⦄, Feeds input (bs ++ rest) last →
    ∃ m, Runs p (old, input) true (new, m) ∧ Feeds m rest last

theorem readsInto_readStringInto {value : Bytes} (short : value.length ≤ maxStringLength)
    (old : Bytes) : ReadsInto (σ := σ) readStringInto (writeString value).flatten old value := by
  intro input last rest feeds
  obtain ⟨m, run, feeds⟩ := decodes_readString short feeds
  exact ⟨m, readStringInto_of_readString run old, feeds⟩

theorem readsInto_readVarint64Into {n : Nat} (fits : n < 2 ^ 64) (old : Nat) :
    ReadsInto (σ := σ) readVarint64Into (writeUInt64 n) old n := by
  intro input last rest feeds
  obtain ⟨m, run, feeds⟩ := decodes_readUInt64 fits feeds
  exact ⟨m, readVarint64Into_of_readVarint64 run old, feeds⟩

/-- One field after the other, as long as they can be read. -/
theorem ReadsInto.andThen {p q : EStateM Error (τ × σ) Bool} {xs ys : Bytes} {a b c : τ}
    (first : ReadsInto p xs a b) (rest : ReadsInto q ys b c) :
    ReadsInto (do if ← p then q else pure false) (xs ++ ys) a c := by
  intro input last more feeds
  rw [append_assoc] at feeds
  obtain ⟨m, run, feeds⟩ := first feeds
  obtain ⟨n, run', feeds⟩ := rest feeds
  exact ⟨n, run.bind run', feeds⟩

variable {read : EStateM Error (τ × σ) Bool} (member : ServerInfo → τ) {bs : Bytes} {value : τ}

theorem readsInto_readInfo {info : ServerInfo} (reads : ReadsInto read bs (member info) value)
    (update : τ → ServerInfo → ServerInfo) :
    ReadsInto (readInfo read member update) bs info (update value info) := by
  intro input last rest feeds
  obtain ⟨m, run, feeds⟩ := reads feeds
  refine ⟨m, ?_, feeds⟩
  exact Runs.zoom (d := (value, m)) run

theorem readsInto_readInfoSince {info : ServerInfo} (reads : ReadsInto read bs (member info) value)
    (first : Nat) (update : τ → ServerInfo → ServerInfo) (revision : Nat)
    (announced : info.revision = revision) :
    ReadsInto (readInfoSince first read member update) (if revision ≥ first then bs else []) info
      (if revision ≥ first then update value info else info) := by
  intro input last rest feeds
  subst announced
  split at feeds
  · rename_i sent
    obtain ⟨m, run, feeds⟩ := readsInto_readInfo member reads update feeds
    refine ⟨m, (runs_get _).bind ?_, feeds⟩
    rw [if_pos sent, if_pos sent]
    exact run
  · rename_i missing
    refine ⟨input, (runs_get _).bind ?_, feeds⟩
    rw [if_neg missing, if_neg missing]
    exact runs_pure _ _

end ReadingInto

end ClickHouse
