import VoxiUtil.Limits
import VoxiUtil.StrbufCalls

/-!
Which writes of a string buffer stay in its block. The first block has a byte more
than `bufferSize`, for the NUL; a block that has grown has not, and `strbuf_enlarge`
is not asked for room for it either.
-/
namespace VoxiUtil.StrbufWrites
open VoxiUtil.CString VoxiUtil.Err VoxiUtil.Runs VoxiUtil.Strbuf VoxiUtil.StrbufCalls

/-- All writes so far stayed in the block. -/
def InBounds (s : Traced) : Prop := ∀ write ∈ s.writes, write.Inside

/-- The byte for the NUL that only the first block has. -/
def spare (strbuf : StringBuffer) : Nat := strbuf.capacity - strbuf.bufferSize

/-- What `strbuf_enlarge` adds to a buffer that has to grow. -/
def growth (strbuf : StringBuffer) (minFreeSpace : Nat) : Nat :=
  if strbuf.bufferSize + strbuf.bufferRemaining < minFreeSpace then minFreeSpace else strbuf.bufferSize

/-- A text whose NUL goes behind the block: it just fills the block that has grown for
    it, or the buffer was full when it grew by the length of the text. -/
def Spills (strbuf : StringBuffer) (length : Nat) : Prop :=
  strbuf.bufferRemaining ≤ length ∧
    (length = strbuf.bufferSize + strbuf.bufferRemaining ∨ strbuf.bufferRemaining = 0 ∧ strbuf.bufferSize < length)

/-- The bytes that `sprintf` writes for a quoted character. Those above 127 are negative
    and have eight digits. -/
def quotedSize (c : UInt8) : Nat := if c < 128 then 5 else 11

/-- A character to be quoted finds room for all that `sprintf` writes, three bytes of
    which are accounted for. -/
def QuotableFits (quoteString : Text) (s : Traced × Nat) (c : UInt8) : Prop :=
  c = 37 ∨ c ∈ quoteString →
    if s.1.strbuf.bufferRemaining < s.2 + 2 then
      quotedSize c ≤ s.1.strbuf.bufferRemaining + growth s.1.strbuf (s.2 + 2)
    else quotedSize c ≤ s.1.strbuf.bufferRemaining + spare s.1.strbuf

/-- The turns of a format that stay in the block. -/
def ConversionFits (quoteString : Option Text) (s : Traced) : Conversion → Prop
  | .char _ => True
  | .int n => ¬ Spills s.strbuf (printInt n).length
  | .string text =>
    match quoteString with
    | none => ¬ Spills s.strbuf text.length
    | some quoteString =>
      ∀ t, enlarge s text.length = some t → Guarded (putQuotable quoteString) (QuotableFits quoteString) (t, text.length) text

/-- Each turn of a format stays in the block, and there is a byte for the NUL at the end. -/
def CallFits (s : Traced) : Call → Prop
  | .sprintf quoteString format args =>
    ∀ turns error, conversions format args = some (turns, error) →
      Guarded (putConversion quoteString) (ConversionFits quoteString) s turns ∧
        ∀ t, run (putConversion quoteString) s turns = some t → 0 < t.strbuf.bufferRemaining + spare t.strbuf
  | .appendBinary _ => True

/-- The arguments of a call are those that its format asks for. -/
def Defined : Call → Prop
  | .sprintf _ format args => (conversions format args).isSome = true
  | .appendBinary _ => True

/-- The first block is one byte larger than the buffer, the later ones are not. -/
structure Sound (strbuf : StringBuffer) : Prop where
  balanced : Balanced strbuf
  lower : strbuf.bufferSize ≤ strbuf.capacity
  upper : strbuf.capacity ≤ strbuf.bufferSize + 1

theorem inside_iff (write : Write) : write.Inside ↔ write.length = 0 ∨ write.start + write.length ≤ write.size := by
  unfold Write.Inside
  constructor
  · intro inside
    by_cases empty : write.length = 0
    · exact .inl empty
    · have last := inside (write.start + write.length - 1) (by omega) (by omega)
      omega
  · rintro fits index low high
    omega

section
variable {s t : Traced}

theorem inBounds_append {write : Write} (writes : t.writes = s.writes ++ [write]) :
    InBounds t ↔ InBounds s ∧ write.Inside := by
  simp only [InBounds, writes, List.forall_mem_append, List.forall_mem_singleton]

/-! ### One write -/

theorem enlarged_sound {strbuf : StringBuffer} (sound : Sound strbuf) (minFreeSpace : Nat) :
    Sound (strbufEnlarge strbuf minFreeSpace) := by
  have balanced := enlarged_balanced sound.balanced minFreeSpace
  unfold strbufEnlarge at balanced ⊢
  by_cases grows : strbuf.bufferRemaining ≤ minFreeSpace
  · rw [if_pos grows] at balanced ⊢
    exact ⟨balanced, Nat.le_refl _, Nat.le_succ _⟩
  · rw [if_neg grows]
    exact sound

/-- The room behind the cursor, up to the end of the block. -/
theorem enlarged_space (strbuf : StringBuffer) (minFreeSpace : Nat) :
    (strbufEnlarge strbuf minFreeSpace).bufferRemaining + spare (strbufEnlarge strbuf minFreeSpace) =
      if strbuf.bufferRemaining ≤ minFreeSpace then strbuf.bufferRemaining + growth strbuf minFreeSpace
      else strbuf.bufferRemaining + spare strbuf := by
  unfold strbufEnlarge growth spare
  by_cases grows : strbuf.bufferRemaining ≤ minFreeSpace
  · simp only [grows, if_true, Nat.sub_self, Nat.add_zero]
  · simp only [grows, if_false]

/-- Bytes stay in the block when there is room for them behind the cursor. -/
theorem put_exact {bytes : Text} {length : Nat} (sound : Sound s.strbuf) (printed : length ≤ bytes.length)
    (stepped : put s bytes length = some t) : Sound t.strbuf ∧
      (InBounds t ↔ InBounds s ∧ bytes.length ≤ s.strbuf.bufferRemaining + spare s.strbuf) := by
  have balanced := sound.balanced
  have lower := sound.lower
  have upper := sound.upper
  unfold put at stepped
  split at stepped
  · cases stepped
  · cases stepped
    refine ⟨⟨?_, lower, upper⟩, ?_⟩
    · unfold StrbufCalls.Balanced at *
      simp only [List.length_append, List.length_take]
      omega
    · rw [inBounds_append rfl, inside_iff]
      refine and_congr_right fun _ => ?_
      unfold StrbufCalls.Balanced at balanced
      simp only [spare]
      omega

theorem enlarge_put_exact {minFreeSpace : Nat} {bytes : Text} {length : Nat} (sound : Sound s.strbuf)
    (printed : length ≤ bytes.length)
    (stepped : ((enlarge s minFreeSpace).bind fun t => put t bytes length) = some t) : Sound t.strbuf ∧
      (InBounds t ↔ InBounds s ∧ bytes.length ≤
        if s.strbuf.bufferRemaining ≤ minFreeSpace then s.strbuf.bufferRemaining + growth s.strbuf minFreeSpace
        else s.strbuf.bufferRemaining + spare s.strbuf) := by
  rw [enlarge_eq sound.balanced, Option.bind_some] at stepped
  have exact := put_exact (enlarged_sound sound minFreeSpace) printed stepped
  rw [enlarged_space] at exact
  exact exact

/-! ### One turn -/

theorem putText_exact {text : Text} (sound : Sound s.strbuf) (stepped : putText s text = some t) :
    Sound t.strbuf ∧ (InBounds t ↔ InBounds s ∧ ¬ Spills s.strbuf text.length) := by
  obtain ⟨kept, bounds⟩ := enlarge_put_exact sound (by simp) stepped
  refine ⟨kept, bounds.trans (and_congr_right fun _ => ?_)⟩
  rw [List.length_append, List.length_singleton]
  unfold Spills growth
  by_cases grows : s.strbuf.bufferRemaining ≤ text.length
  · rw [if_pos grows]
    split <;> omega
  · rw [if_neg grows]
    omega

theorem quotedText_size (c : UInt8) : (quotedText c).length + 1 = quotedSize c := by
  apply @forall_byte fun c => (quotedText c).length + 1 = quotedSize c
  decide +kernel

theorem put_room {bytes : Text} {length : Nat} (stepped : put s bytes length = some t) :
    length ≤ s.strbuf.bufferRemaining := by
  by_contra short
  rw [put, if_pos (by omega)] at stepped
  cases stepped

theorem putQuotable_exact {quoteString : Text} {s t : Traced × Nat} {c : UInt8} (sound : Sound s.1.strbuf)
    (stepped : putQuotable quoteString s c = some t) : Sound t.1.strbuf ∧
      (InBounds t.1 ↔ InBounds s.1 ∧ QuotableFits quoteString s c) := by
  have size := quotedText_size c
  have whole := quotedText_length c
  have longer := printHex_length c
  have printed : 3 ≤ (quotedText c ++ [0]).length := by simp; omega
  have total : (quotedText c ++ [0]).length = quotedSize c := by simp; omega
  unfold putQuotable at stepped
  unfold QuotableFits
  by_cases quoted : c = 37 ∨ c ∈ quoteString
  · simp only [quoted, if_true, true_imp_iff] at stepped ⊢
    by_cases short : s.1.strbuf.bufferRemaining < s.2 + 2
    · simp only [short, if_true] at stepped ⊢
      obtain ⟨u, written, rfl⟩ := Option.map_eq_some_iff.mp stepped
      have exact := enlarge_put_exact sound printed written
      rw [if_pos (Nat.le_of_lt short), total] at exact
      exact exact
    · simp only [short, if_false, Option.bind_some] at stepped ⊢
      obtain ⟨u, written, rfl⟩ := Option.map_eq_some_iff.mp stepped
      have exact := put_exact sound printed written
      rw [total] at exact
      exact exact
  · simp only [quoted, if_false] at stepped ⊢
    obtain ⟨u, written, rfl⟩ := Option.map_eq_some_iff.mp stepped
    obtain ⟨kept, bounds⟩ := put_exact sound (Nat.le_refl 1) written
    have room := put_room written
    refine ⟨kept, bounds.trans (and_congr_right fun _ => ?_)⟩
    rw [List.length_singleton]
    exact iff_of_true (by omega) (fun quotes => quotes.elim)

theorem putString_exact {quoteString : Option Text} {text : Text} (sound : Sound s.strbuf)
    (stepped : putString quoteString s text = some t) : Sound t.strbuf ∧
      (InBounds t ↔ InBounds s ∧ ConversionFits quoteString s (.string text)) := by
  cases quoteString with
  | none => exact putText_exact sound stepped
  | some quoteString =>
    rw [putString, enlarge_eq sound.balanced, Option.bind_some] at stepped
    obtain ⟨u, ran, rfl⟩ := Option.map_eq_some_iff.mp stepped
    have preserved : ∀ (s : Traced × Nat) c t, Sound s.1.strbuf → putQuotable quoteString s c = some t → Sound t.1.strbuf :=
      fun s c t sound stepped => (putQuotable_exact sound stepped).1
    have exact : ∀ (s : Traced × Nat) c t, Sound s.1.strbuf → putQuotable quoteString s c = some t →
        (InBounds t.1 ↔ InBounds s.1 ∧ QuotableFits quoteString s c) :=
      fun s c t sound stepped => (putQuotable_exact sound stepped).2
    have start := enlarged_sound sound text.length
    refine ⟨run_invariant preserved start ran, ?_⟩
    rw [property_iff_guarded (P := fun s => InBounds s.1) preserved exact start ran]
    refine and_congr_right fun _ => ?_
    simp only [ConversionFits, enlarge_eq sound.balanced, Option.some.injEq, forall_eq']

theorem putConversion_exact {quoteString : Option Text} {conversion : Conversion} (sound : Sound s.strbuf)
    (stepped : putConversion quoteString s conversion = some t) : Sound t.strbuf ∧
      (InBounds t ↔ InBounds s ∧ ConversionFits quoteString s conversion) := by
  cases conversion with
  | char c =>
    have room : ∀ {u : Traced}, put u [c] 1 = some t → Sound u.strbuf → (InBounds u ↔ InBounds s) →
        Sound t.strbuf ∧ (InBounds t ↔ InBounds s ∧ ConversionFits quoteString s (.char c)) := by
      intro u written sound same
      obtain ⟨kept, bounds⟩ := put_exact sound (Nat.le_refl 1) written
      have room := put_room written
      refine ⟨kept, bounds.trans ?_⟩
      rw [same, List.length_singleton]
      exact and_congr_right fun _ => iff_of_true (by omega) trivial
    rw [putConversion] at stepped
    by_cases full : s.strbuf.bufferRemaining = 0
    · rw [if_pos full, enlarge_eq sound.balanced, Option.bind_some] at stepped
      exact room stepped (enlarged_sound sound 1) Iff.rfl
    · rw [if_neg full, Option.bind_some] at stepped
      exact room stepped sound Iff.rfl
  | int n => exact putText_exact sound stepped
  | string text => exact putString_exact sound stepped

theorem terminate_exact {error : Option Error} (sound : Sound s.strbuf) (stepped : terminate s error = some t) :
    Sound t.strbuf ∧ (InBounds t ↔ InBounds s ∧ 0 < s.strbuf.bufferRemaining + spare s.strbuf) := by
  obtain ⟨u, written, ended⟩ := Option.bind_eq_some_iff.mp stepped
  split at ended
  · cases ended
    exact put_exact sound (Nat.zero_le _) written
  · cases ended

/-! ### Calls -/

theorem call_exact {c : Call} (sound : Sound s.strbuf) (stepped : call s c = some t) :
    Sound t.strbuf ∧ (InBounds t ↔ InBounds s ∧ CallFits s c) := by
  cases c with
  | sprintf quoteString format args =>
    obtain ⟨⟨turns, error⟩, parsed, printed⟩ := Option.bind_eq_some_iff.mp stepped
    obtain ⟨u, ran, ended⟩ := Option.bind_eq_some_iff.mp printed
    have preserved : ∀ (s : Traced) turn t, Sound s.strbuf → putConversion quoteString s turn = some t → Sound t.strbuf :=
      fun s turn t sound stepped => (putConversion_exact sound stepped).1
    have exact : ∀ (s : Traced) turn t, Sound s.strbuf → putConversion quoteString s turn = some t →
        (InBounds t ↔ InBounds s ∧ ConversionFits quoteString s turn) :=
      fun s turn t sound stepped => (putConversion_exact sound stepped).2
    obtain ⟨kept, bounds⟩ := terminate_exact (run_invariant preserved sound ran) ended
    refine ⟨kept, ?_⟩
    rw [bounds, property_iff_guarded preserved exact sound ran, and_assoc]
    refine and_congr_right fun _ => ?_
    simp only [CallFits, parsed, ran, Option.some.injEq, Prod.mk.injEq, and_imp, forall_eq', forall_apply_eq_imp_iff]
  | appendBinary block =>
    obtain ⟨u, written, rfl⟩ := Option.map_eq_some_iff.mp stepped
    obtain ⟨kept, bounds⟩ := enlarge_put_exact sound (Nat.le_refl _) written
    refine ⟨kept, bounds.trans (and_congr_right fun _ => iff_of_true ?_ trivial)⟩
    unfold growth
    split
    · split <;> omega
    · omega

end

/-! ### Runs -/

/-- No write is forgotten. -/
def Extends (s t : Traced) : Prop := s.writes <+: t.writes

section
variable {s t : Traced}

theorem put_extends {bytes : Text} {length : Nat} (stepped : put s bytes length = some t) : Extends s t := by
  unfold put at stepped
  split at stepped
  · cases stepped
  · cases stepped
    exact List.prefix_append _ _

theorem enlarge_extends {minFreeSpace : Nat} (stepped : enlarge s minFreeSpace = some t) : Extends s t := by
  simp only [enlarge] at stepped
  split at stepped
  · cases stepped
  · cases stepped
    exact List.prefix_rfl

theorem bind_extends {first second : Traced → Option Traced} (one : ∀ {s t}, first s = some t → Extends s t)
    (two : ∀ {s t}, second s = some t → Extends s t) (stepped : (first s).bind second = some t) : Extends s t := by
  obtain ⟨m, began, ended⟩ := Option.bind_eq_some_iff.mp stepped
  exact (one began).trans (two ended)

theorem putText_extends {text : Text} (stepped : putText s text = some t) : Extends s t :=
  bind_extends enlarge_extends put_extends stepped

theorem putQuotable_extends {quoteString : Text} {s t : Traced × Nat} {c : UInt8}
    (stepped : putQuotable quoteString s c = some t) : Extends s.1 t.1 := by
  unfold putQuotable at stepped
  split at stepped
  · obtain ⟨u, written, rfl⟩ := Option.map_eq_some_iff.mp stepped
    split at written
    · exact bind_extends enlarge_extends put_extends written
    · exact put_extends written
  · obtain ⟨u, written, rfl⟩ := Option.map_eq_some_iff.mp stepped
    exact put_extends written

theorem run_extends {σ ℓ : Type} {step : σ → ℓ → Option σ} (view : σ → Traced)
    (each : ∀ {s a t}, step s a = some t → Extends (view s) (view t)) {s t : σ} {labels : List ℓ}
    (ran : run step s labels = some t) : Extends (view s) (view t) := by
  have preserved : ∀ m a n, Extends (view s) (view m) → step m a = some n → Extends (view s) (view n) :=
    fun m a n kept stepped => kept.trans (each stepped)
  exact run_invariant preserved List.prefix_rfl ran

theorem putConversion_extends {quoteString : Option Text} {conversion : Conversion}
    (stepped : putConversion quoteString s conversion = some t) : Extends s t := by
  cases conversion with
  | char c =>
    rw [putConversion] at stepped
    split at stepped
    · exact bind_extends enlarge_extends put_extends stepped
    · exact put_extends stepped
  | int n => exact putText_extends stepped
  | string text =>
    cases quoteString with
    | none => exact putText_extends stepped
    | some quoteString =>
      obtain ⟨m, enlarged, mapped⟩ := Option.bind_eq_some_iff.mp stepped
      obtain ⟨u, ran, rfl⟩ := Option.map_eq_some_iff.mp mapped
      exact (enlarge_extends enlarged).trans (run_extends Prod.fst putQuotable_extends ran)

theorem terminate_extends {error : Option Error} (stepped : terminate s error = some t) : Extends s t := by
  obtain ⟨u, written, ended⟩ := Option.bind_eq_some_iff.mp stepped
  have all := put_extends written
  split at ended
  · cases ended
    exact all
  · cases ended

theorem call_extends {c : Call} (stepped : call s c = some t) : Extends s t := by
  cases c with
  | sprintf quoteString format args =>
    obtain ⟨turns, _, printed⟩ := Option.bind_eq_some_iff.mp stepped
    obtain ⟨u, ran, ended⟩ := Option.bind_eq_some_iff.mp printed
    exact (run_extends id putConversion_extends ran).trans (terminate_extends ended)
  | appendBinary block =>
    obtain ⟨u, written, rfl⟩ := Option.map_eq_some_iff.mp stepped
    have all : Extends s u := bind_extends enlarge_extends put_extends written
    exact all

/-- Calls whose arguments are those that the formats ask for fail no assertion. -/
theorem call_defined {c : Call} (balanced : Balanced s.strbuf) (defined : Defined c) :
    ∃ t, call s c = some t ∧ Balanced t.strbuf := by
  cases c with
  | sprintf quoteString format args =>
    obtain ⟨⟨turns, error⟩, parsed⟩ := Option.isSome_iff_exists.mp defined
    obtain ⟨u, ran, first⟩ := putConversions_spec quoteString balanced turns
    obtain ⟨t, ended, last, _⟩ := terminate_spec first.balanced error
    refine ⟨t, ?_, last.balanced⟩
    simp only [call, strbufSprintfQuoteSubstrings2, parsed, Option.bind_some, ran, ended]
  | appendBinary block =>
    obtain ⟨t, stepped, appended, _⟩ := call_spec balanced (c := .appendBinary block) rfl
    exact ⟨t, stepped, appended.balanced⟩

/-! ### The buffers that only keep their texts -/

/-- What a turn of the loop without quoting is to `putPiece`. -/
def piece : Conversion → Piece
  | .char c => .char c
  | .int n => .text (printInt n)
  | .string text => .text text

theorem put_piece {text bytes : Text} (sound : Sound s.strbuf) (inside : InBounds s) (printed : text.length ≤ bytes.length)
    (prefixes : bytes.take text.length = text) (stepped : put s bytes text.length = some t) :
    (InBounds t ↔ s.strbuf.string.length + bytes.length ≤ s.strbuf.capacity) ∧
      t.strbuf = { s.strbuf with string := s.strbuf.string ++ text
                                 bufferRemaining := s.strbuf.bufferRemaining - text.length } := by
  have balanced := sound.balanced
  have lower := sound.lower
  have room := put_room stepped
  have bounds := (put_exact sound printed stepped).2
  rw [put_eq room, prefixes] at stepped
  cases stepped
  refine ⟨bounds.trans ?_, rfl⟩
  unfold StrbufCalls.Balanced at balanced
  unfold spare
  constructor
  · rintro ⟨_, fits⟩
    omega
  · intro fits
    exact ⟨inside, by omega⟩

theorem enlarge_kept {minFreeSpace : Nat} (sound : Sound s.strbuf) (inside : InBounds s)
    (stepped : enlarge s minFreeSpace = some t) :
    t.strbuf = strbufEnlarge s.strbuf minFreeSpace ∧ Sound t.strbuf ∧ InBounds t := by
  rw [enlarge_eq sound.balanced] at stepped
  cases stepped
  exact ⟨rfl, enlarged_sound sound minFreeSpace, inside⟩

theorem putText_piece {text : Text} (sound : Sound s.strbuf) (inside : InBounds s) (stepped : putText s text = some t)
    (u : StringBuffer) : putPiece s.strbuf (.text text) = some u ↔ u = t.strbuf ∧ InBounds t := by
  obtain ⟨m, enlarged, written⟩ := Option.bind_eq_some_iff.mp stepped
  obtain ⟨larger, kept, before⟩ := enlarge_kept sound inside enlarged
  obtain ⟨bounds, same⟩ := put_piece kept before (by simp) (List.take_left' rfl) written
  rw [List.length_append, List.length_singleton, ← Nat.add_assoc] at bounds
  simp only [putPiece, ← larger, bounds, same, Option.ite_none_right_eq_some, Option.some.injEq]
  rw [and_comm, eq_comm]

/-- A piece is put where all the writes stay in the block, and the buffers are then the same. -/
theorem putPiece_iff {conversion : Conversion} (sound : Sound s.strbuf) (inside : InBounds s)
    (stepped : putConversion none s conversion = some t) (u : StringBuffer) :
    putPiece s.strbuf (piece conversion) = some u ↔ u = t.strbuf ∧ InBounds t := by
  cases conversion with
  | char c =>
    have printed : [c].length ≤ [c].length := Nat.le_refl 1
    rw [putConversion] at stepped
    simp only [piece, putPiece]
    by_cases full : s.strbuf.bufferRemaining = 0
    · rw [if_pos full] at stepped
      obtain ⟨m, enlarged, written⟩ := Option.bind_eq_some_iff.mp stepped
      obtain ⟨larger, kept, before⟩ := enlarge_kept sound inside enlarged
      obtain ⟨bounds, same⟩ := put_piece kept before printed rfl written
      rw [List.length_singleton] at bounds
      simp only [full, if_true, ← larger, bounds, same, Option.ite_none_right_eq_some, Option.some.injEq, List.length_singleton]
      rw [and_comm, eq_comm]
    · rw [if_neg full, Option.bind_some] at stepped
      obtain ⟨bounds, same⟩ := put_piece sound inside printed rfl stepped
      rw [List.length_singleton] at bounds
      simp only [full, if_false, bounds, same, Option.ite_none_right_eq_some, Option.some.injEq, List.length_singleton]
      rw [and_comm, eq_comm]
  | int n => exact putText_piece sound inside stepped u
  | string text => exact putText_piece sound inside stepped u

theorem terminate_piece {error : Option Error} (sound : Sound s.strbuf) (inside : InBounds s)
    (stepped : terminate s error = some t) (u : StringBuffer) :
    strbufSprintf s.strbuf [] = some u ↔ u = t.strbuf ∧ InBounds t := by
  obtain ⟨m, written, asserted⟩ := Option.bind_eq_some_iff.mp stepped
  have nothing : put s [0] ([] : Text).length = some m := written
  have short : ([] : Text).length ≤ [(0 : UInt8)].length := Nat.zero_le 1
  obtain ⟨bounds, same⟩ := put_piece sound inside short rfl nothing
  rw [List.append_nil] at same
  split at asserted
  · cases asserted
    have whole : InBounds { m with error } ↔ s.strbuf.string.length + 1 ≤ s.strbuf.capacity := bounds
    have result : strbufSprintf s.strbuf [] = some u ↔ s.strbuf.string.length + 1 ≤ s.strbuf.capacity ∧ some s.strbuf = some u :=
      Option.ite_none_right_eq_some
    rw [result, whole, same, Option.some.injEq, and_comm, eq_comm]
    exact Iff.rfl
  · cases asserted

/-- `strbufSprintf` is `strbuf_sprintf` where all its writes stay in the block, and has no result elsewhere. -/
theorem strbufSprintf_iff {turns : List Conversion} {error : Option Error} {m : Traced} (sound : Sound s.strbuf) (inside : InBounds s)
    (ran : run (putConversion none) s turns = some m) (ended : terminate m error = some t) (u : StringBuffer) :
    strbufSprintf s.strbuf (turns.map piece) = some u ↔ u = t.strbuf ∧ InBounds t := by
  induction turns generalizing s with
  | nil => cases ran; exact terminate_piece sound inside ended u
  | cons conversion rest ih =>
    obtain ⟨n, stepped, remaining⟩ := run_cons.mp ran
    have one := putPiece_iff sound inside stepped
    rw [List.map_cons, sprintf_cons]
    by_cases within : InBounds n
    · rw [(one n.strbuf).mpr ⟨rfl, within⟩, Option.bind_some]
      exact ih (putConversion_exact sound stepped).1 within remaining
    · have stuck : putPiece s.strbuf (piece conversion) = none :=
        Option.eq_none_iff_forall_ne_some.mpr fun v put => within ((one v).mp put).2
      rw [stuck, Option.bind_none]
      refine iff_of_false (by simp) fun held => within fun write member => ?_
      have later := (run_extends id putConversion_extends remaining).trans (terminate_extends ended)
      exact held.2 write (later.subset member)

end

/-- The largest `size_t`, for which the size of the first block is 0. -/
def sizeMax : UInt64 := UInt64.ofNat Limits.sizeMax

theorem create_size {length : UInt64} (fits : length ≠ sizeMax) : (length + 1).toNat = length.toNat + 1 := by
  have high := length.toNat_lt
  have below : length.toNat ≠ 2 ^ 64 - 1 := fun same => fits (UInt64.toNat_inj.mp same)
  rw [UInt64.toNat_add, UInt64.toNat_one]
  omega

theorem create_sound {length : UInt64} (fits : length ≠ sizeMax) : Sound (create length).strbuf := by
  have size := create_size fits
  refine ⟨create_balanced length, ?_, ?_⟩
  · simp only [create]
    omega
  · simp only [create]
    omega

theorem create_inBounds (length : UInt64) : InBounds (create length) ↔ length ≠ sizeMax := by
  simp only [InBounds, create, List.forall_mem_singleton, inside_iff]
  constructor
  · rintro fits rfl
    revert fits
    decide
  · intro fits
    rw [create_size fits]
    omega

end VoxiUtil.StrbufWrites
