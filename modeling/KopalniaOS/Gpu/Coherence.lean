import KopalniaOS.Gpu.Render
import KopalniaOS.Gpu.Terminal

/-!
# The screen and the back buffer

`swap` copies the back buffer only if something was drawn since. Nobody sees that it does not always
copy: whatever changes the back buffer also sets `is_dirty`, and nothing else is written.
-/
namespace KopalniaOS.Gpu

open Library Stdlib

/-! ### Calls -/

/-- The calls that the kernel and its programs make; a rectangle is given as for `rectangle` and ends on
the screen. Scrolling by no lines is left out: the error that is logged is printed here as well. -/
inductive Call (info : Info) where
  | clear (color : UInt32)
  | putCharAt (c : UInt8) (x y : Nat) (color : UInt32)
  | putChar (c : UInt8) (color : UInt32)
  | scroll (lines : Nat) (some : lines ≠ 0)
  | rectangle (start s : IVec2) (color : UInt32) (fits : Fits info start s)
  | swap

/-- One call, with what is done for `swap`. -/
def Call.program {info : Info} (font8x16 : Nat → UInt8)
    (swap : Framebuffer → MemProgram Framebuffer) (fb : Framebuffer) :
    Call info → MemProgram Framebuffer
  | .clear color => Gpu.clear fb color
  | .putCharAt c x y color => Gpu.putCharAt font8x16 fb c x y color
  | .putChar c color => Gpu.putChar font8x16 fb c color
  | .scroll lines _ => Gpu.scroll fb lines
  | .rectangle start s color _ => (Gpu.rectangle fb start s color).interp (drawn fb)
  | .swap => swap fb

def callAll {info : Info} (font8x16 : Nat → UInt8) (swap : Framebuffer → MemProgram Framebuffer)
    (fb : Framebuffer) : List (Call info) → MemProgram Framebuffer
  | [] => pure fb
  | call :: rest => do
    let fb ← call.program font8x16 swap fb
    callAll font8x16 swap fb rest

/-- `swap` without the test of `is_dirty`. -/
def swapAlways (fb : Framebuffer) : MemProgram Framebuffer :=
  if fb.initialized = false then pure fb
  else do
    memcpy fb.frontBuffer fb.backBuffer fb.info.size
    pure { fb with isDirty := false }

/-! ### Drawing marks what it changes -/

structure SameBuffers (fb fb' : Framebuffer) : Prop where
  initialized : fb'.initialized = fb.initialized
  info : fb'.info = fb.info
  backBuffer : fb'.backBuffer = fb.backBuffer
  frontBuffer : fb'.frontBuffer = fb.frontBuffer

variable {fb fb' : Framebuffer} {font8x16 : Nat → UInt8}

theorem SameBuffers.refl (fb : Framebuffer) : SameBuffers fb fb := ⟨rfl, rfl, rfl, rfl⟩

theorem SameBuffers.trans {fb'' : Framebuffer} (first : SameBuffers fb fb')
    (second : SameBuffers fb' fb'') : SameBuffers fb fb'' where
  initialized := second.initialized.trans first.initialized
  info := second.info.trans first.info
  backBuffer := second.backBuffer.trans first.backBuffer
  frontBuffer := second.frontBuffer.trans first.frontBuffer

/-- Unless the memory is as it was, the result is dirty. -/
def Marked (fb : Framebuffer) (m : Memory) (fb' : Framebuffer) (m' : Memory) : Prop :=
  SameBuffers fb fb' ∧ (fb'.isDirty = true ∨ fb'.isDirty = fb.isDirty ∧ m' = m)

/-- `p` returns, stays in the back buffer, and marks what it changes. -/
def Draws (fb : Framebuffer) (p : MemProgram Framebuffer) : Prop :=
  ∀ m, p.Ensures memHandler (fun o _ => InPixels fb o) m (Marked fb m)

/-- The same buffer. -/
theorem SameBuffers.inPixels (same : SameBuffers fb fb') : InPixels fb' = InPixels fb := by
  funext o
  cases o with
  | load w a => rfl
  | store w a v =>
    unfold InPixels
    rw [same.info, same.backBuffer]

theorem draws_pure (same : SameBuffers fb fb') (dirty : fb'.isDirty = fb.isDirty) :
    Draws fb (pure fb') :=
  fun _ => ⟨same, .inr ⟨dirty, rfl⟩⟩

theorem Draws.bind {p : MemProgram Framebuffer} {f : Framebuffer → MemProgram Framebuffer}
    (first : Draws fb p) (next : ∀ fb', SameBuffers fb fb' → Draws fb' (f fb')) :
    Draws fb (p >>= f) := by
  intro m
  refine Program.ensures_bind (first m) ?_
  rintro fb₁ m₁ ⟨same₁, marked₁⟩
  have draws := next fb₁ same₁ m₁
  rw [same₁.inPixels] at draws
  refine draws.mono ?_
  rintro fb₂ m₂ ⟨same₂, marked₂⟩
  refine ⟨same₁.trans same₂, ?_⟩
  rcases marked₂ with dirty | ⟨kept, rfl⟩
  · exact .inl dirty
  · rwa [kept]

/-- Moving the cursor first makes no difference. -/
theorem Draws.congr {p : MemProgram Framebuffer} (draws : Draws fb' p) (same : SameBuffers fb fb')
    (dirty : fb'.isDirty = fb.isDirty) : Draws fb p := by
  intro m
  rw [← same.inPixels]
  refine (draws m).mono ?_
  rintro fb₂ m₂ ⟨same₂, marked⟩
  rw [dirty] at marked
  exact ⟨same.trans same₂, marked⟩

/-- `p` returns and stays in the back buffer, whatever it stores there. -/
def Fills (fb : Framebuffer) (p : MemProgram Unit) : Prop :=
  ∀ m, p.Ensures memHandler (fun o _ => InPixels fb o) m fun _ _ => True

theorem fills_of_always {p : MemProgram Unit} (always : p.Always (InPixels fb)) : Fills fb p := by
  intro m
  refine always.meets (I := fun _ => True) (fun o s inside _ _ => ⟨inside, fun fails => ?_, ?_⟩) trivial
  · cases o <;> cases fails
  · exact fun _ _ => trivial

/-- The pixels of the buffer. -/
def pixels (fb : Framebuffer) : Nat := fb.info.height * fb.info.pixelsInScanline

theorem fills_memset32 {first count : Nat} (color : UInt32) (inside : first + count ≤ pixels fb) :
    Fills fb (memset32 (fb.backBuffer + 4 * first) color.toNat count) := by
  intro m
  refine ((memset32_ensures m _ color.toNat_lt count).weaken ?_).mono fun _ _ _ => trivial
  unfold pixels at inside
  rintro (⟨w, a⟩ | ⟨w, a, v⟩) _ range
  · trivial
  · exact ⟨by have := range.1; omega, by have := range.2; omega⟩

/-- From the higher addresses to the lower ones. -/
theorem fills_memcpy {first count : Nat} (inside : count ≤ pixels fb) :
    Fills fb (memcpy fb.backBuffer (fb.backBuffer + 4 * first) (count * 4)) := by
  intro m
  refine ((memcpy_ensures m (.inl (Nat.le_add_right _ _))).weaken ?_).mono fun _ _ _ => trivial
  unfold pixels at inside
  rintro (⟨w, a⟩ | ⟨w, a, v⟩) _ range
  · trivial
  · exact ⟨range.1, by have := range.2; omega⟩

theorem Fills.bind {p q : MemProgram Unit} (first : Fills fb p) (second : Fills fb q) :
    Fills fb (p >>= fun _ => q) := fun m =>
  Program.ensures_bind (first m) fun _ m' _ => second m'

/-- Whatever is stored, as long as the result is dirty. -/
theorem Fills.marked {p : MemProgram Unit} (fills : Fills fb p) :
    Draws fb (p >>= fun _ => pure { fb with isDirty := true }) := fun m =>
  Program.ensures_bind (fills m) fun _ _ _ => ⟨⟨rfl, rfl, rfl, rfl⟩, .inl rfl⟩

/-! ### The calls -/

theorem draws_clear (fb : Framebuffer) (color : UInt32) : Draws fb (clear fb color) := by
  have inside : 0 + fb.info.height * fb.info.pixelsInScanline % 2 ^ 32 ≤ pixels fb := by
    rw [Nat.zero_add]
    exact Nat.mod_le _ _
  exact (fills_memset32 color inside).marked

section Wide

variable (wide : fb.info.width ≤ fb.info.pixelsInScanline)
include wide

theorem always_setPixel {x y : Nat} (inRow : x < fb.info.width) (inside : y < fb.info.height)
    (color : UInt32) : (setPixel fb x y color).Always (InPixels fb) :=
  drawn_inPixels ((onScreen_iff wide x y color).mpr ⟨inRow, inside⟩)

theorem always_putCols (bits : UInt8) (pixelX : Nat) {y : Nat} (inside : y < fb.info.height)
    (color : UInt32) (left col : Nat) :
    (putCols fb bits pixelX y color left col).Always (InPixels fb) := by
  induction left generalizing col with
  | zero => trivial
  | succ left ih =>
    rw [putCols]
    split
    · trivial
    · rename_i inRow
      exact (always_setPixel wide (Nat.not_le.mp inRow) inside _).bind fun _ => ih (col + 1)

theorem always_putRows (c : UInt8) (pixelX pixelY : Nat) (color : UInt32) (left row : Nat) :
    (putRows font8x16 fb c pixelX pixelY color left row).Always (InPixels fb) := by
  induction left generalizing row with
  | zero => trivial
  | succ left ih =>
    rw [putRows]
    split
    · trivial
    · rename_i inside
      exact (always_putCols wide _ _ (Nat.not_le.mp inside) _ _ _).bind fun _ => ih (row + 1)

/-- Wherever the character would be, only what is on the screen is drawn. -/
theorem draws_putCharAt (c : UInt8) (x y : Nat) (color : UInt32) :
    Draws fb (putCharAt font8x16 fb c x y color) := by
  rw [putCharAt]
  split
  · exact draws_pure (.refl fb) rfl
  · have rows : (putRows font8x16 { fb with isDirty := true } c (x * 8 % 2 ^ 32) (y * 16 % 2 ^ 32)
        color 16 0).Always (InPixels { fb with isDirty := true }) := always_putRows wide c _ _ color 16 0
    have fills : Fills fb (putRows font8x16 { fb with isDirty := true } c (x * 8 % 2 ^ 32)
        (y * 16 % 2 ^ 32) color 16 0) := fills_of_always rows
    exact fills.marked

end Wide

/-- The picture moves up, and the rows below it are filled. -/
theorem draws_scroll (fb : Framebuffer) {lines : Nat} (some : lines ≠ 0) :
    Draws fb (scroll fb lines) := by
  rw [scroll, if_neg some]
  split
  · exact draws_pure (.refl fb) rfl
  dsimp only
  split
  · exact draws_clear fb backgroundColor
  · rename_i stays
    have all : (fb.info.height - lines * 16 % 2 ^ 32) * fb.info.pixelsInScanline +
        lines * 16 % 2 ^ 32 * fb.info.pixelsInScanline = pixels fb := by
      rw [← Nat.add_mul, Nat.sub_add_cancel (by omega), pixels]
    have kept := Nat.mod_le
      ((fb.info.height - lines * 16 % 2 ^ 32) * fb.info.pixelsInScanline) (2 ^ 32)
    have gone := Nat.mod_le (lines * 16 % 2 ^ 32 * fb.info.pixelsInScanline) (2 ^ 32)
    rw [← bind_assoc]
    exact ((fills_memcpy (by omega)).bind (fills_memset32 _ (by omega))).marked

/-- What is set behind a program are coordinates of the cursor. -/
theorem Draws.moved {p : MemProgram Framebuffer} {g : Framebuffer → Framebuffer} (draws : Draws fb p)
    (same : ∀ fb, SameBuffers fb (g fb)) (dirty : ∀ fb, (g fb).isDirty = fb.isDirty) :
    Draws fb (p >>= fun fb => pure (g fb)) :=
  draws.bind fun fb' _ => draws_pure (same fb') (dirty fb')

theorem draws_newline (fb : Framebuffer) :
    Draws fb (if fb.heightInChars ≤ fb.cursorY then do
      let fb ← scroll fb 1
      pure { fb with cursorY := fb.heightInChars - 1 }
    else pure fb) := by
  split
  · exact (draws_scroll fb Nat.one_ne_zero).moved (fun _ => ⟨rfl, rfl, rfl, rfl⟩) fun _ => rfl
  · exact draws_pure (.refl fb) rfl

theorem draws_incCursor (fb : Framebuffer) (amount : Int) : Draws fb (incCursor fb amount) := by
  rw [incCursor]
  dsimp only
  split
  · exact (draws_newline { fb with cursorX := 0, cursorY := fb.cursorY + 1 }).congr
      ⟨rfl, rfl, rfl, rfl⟩ rfl
  · exact draws_pure ⟨rfl, rfl, rfl, rfl⟩ rfl

theorem decCursor_same (fb : Framebuffer) (amount : Int) :
    SameBuffers fb (decCursor fb amount) ∧ (decCursor fb amount).isDirty = fb.isDirty := by
  rw [decCursor]
  dsimp only
  split
  · split <;> exact ⟨⟨rfl, rfl, rfl, rfl⟩, rfl⟩
  · exact ⟨⟨rfl, rfl, rfl, rfl⟩, rfl⟩

theorem SameBuffers.wide (same : SameBuffers fb fb')
    (wide : fb.info.width ≤ fb.info.pixelsInScanline) : fb'.info.width ≤ fb'.info.pixelsInScanline := by
  rwa [same.info]

section Wide

variable (wide : fb.info.width ≤ fb.info.pixelsInScanline)
include wide

/-- A character that is no control character. -/
theorem draws_writeChar (c : UInt8) (color : UInt32) :
    Draws fb (do
      let fb ← putCharAt font8x16 fb c (u32 fb.cursorX) (u32 fb.cursorY) color
      incCursor fb 1) :=
  (draws_putCharAt wide _ _ _ _).bind fun fb' _ => draws_incCursor fb' 1

theorem draws_putSpace (color : UInt32) : Draws fb (putChar font8x16 fb charSpace color) := by
  rw [putChar, if_neg (by decide : ¬charSpace = charTab), if_neg (by decide : ¬charSpace = charNewline),
    if_neg (by decide : ¬charSpace = charBackspace)]
  split
  · exact draws_pure (.refl fb) rfl
  · exact draws_writeChar wide charSpace color

theorem draws_putChar (c : UInt8) (color : UInt32) : Draws fb (putChar font8x16 fb c color) := by
  rw [putChar]
  split
  · exact draws_pure (.refl fb) rfl
  split
  · exact (draws_incCursor fb tabSize).bind fun fb' same => draws_putSpace (same.wide wide) color
  split
  · exact (draws_newline { fb with cursorX := 0, cursorY := fb.cursorY + 1 }).congr
      ⟨rfl, rfl, rfl, rfl⟩ rfl
  split
  · refine (draws_putCharAt wide _ _ _ _).bind fun fb' same => ?_
    obtain ⟨back, dirty⟩ := decCursor_same fb' 1
    exact (draws_putCharAt (back.wide (same.wide wide)) _ _ _ _).congr back dirty
  · exact draws_writeChar wide c color

theorem draws_rectangle {start s : IVec2} (fits : Fits fb.info start s) (color : UInt32) :
    Draws fb ((rectangle fb start s color).interp (drawn fb)) := by
  have calls := onScreen_of_fits color wide fits
  rw [rectangle] at calls ⊢
  split
  · exact draws_pure (.refl fb) rfl
  rename_i accepted
  rw [if_neg accepted, Program.always_bind_unit] at calls
  have filled := calls.1.interp fun _ on => drawn_inPixels on
  rw [Program.interp_bind]
  exact (fills_of_always filled).marked

end Wide

/-! ### What is on the screen -/

/-- Unless something was drawn since the last `swap`, the screen shows the back buffer. -/
structure Coherent (screen : Screen) (fb : Framebuffer) (m : Memory) : Prop extends
    On screen fb where
  frontBuffer : fb.frontBuffer = screen.base
  shown : fb.isDirty = false → m.bytes screen.base screen.size = m.bytes screen.backBuffer screen.size

/-- Stores go to pixels of the back buffer or to the screen. -/
def Screen.InBuffers (screen : Screen) : MemOp → Memory → Prop
  | .load .., _ => True
  | .store w a v, m => screen.InBackBuffer (.store w a v) m ∨
    screen.base ≤ a ∧ a + w ≤ screen.base + screen.size

variable {screen : Screen} {m m' : Memory}

theorem On.inBuffers (on : On screen fb) (o : MemOp) (m : Memory) (inside : InPixels fb o) :
    screen.InBuffers o m := by
  cases o with
  | load w a => trivial
  | store w a v =>
    unfold InPixels at inside
    rw [on.info, on.backBuffer] at inside
    exact .inl inside

theorem Coherent.marked (coherent : Coherent screen fb m) (marked : Marked fb m fb' m') :
    Coherent screen fb' m' where
  initialized := marked.1.initialized.trans coherent.initialized
  info := marked.1.info.trans coherent.info
  backBuffer := marked.1.backBuffer.trans coherent.backBuffer
  frontBuffer := marked.1.frontBuffer.trans coherent.frontBuffer
  shown clean := by
    rcases marked.2 with dirty | ⟨kept, rfl⟩
    · rw [clean] at dirty
      cases dirty
    · exact coherent.shown (kept ▸ clean)

/-- The copy leaves the back buffer alone. -/
theorem bytes_copied (screen : Screen) (m : Memory) :
    (m.copyFrom m screen.base screen.backBuffer screen.size).bytes screen.base screen.size =
      (m.copyFrom m screen.base screen.backBuffer screen.size).bytes screen.backBuffer screen.size := by
  have apart := screen.apart
  rw [Memory.bytes_copyFrom, Memory.bytes_copyFrom_disjoint _ _ (by omega)]

theorem swapAlways_ensures (coherent : Coherent screen fb m) :
    (swapAlways fb).Ensures memHandler screen.InBuffers m fun fb' m' =>
      fb' = { fb with isDirty := false } ∧
        m' = m.copyFrom m screen.base screen.backBuffer screen.size := by
  have apart : screen.base ≤ screen.backBuffer ∨ screen.backBuffer + screen.size ≤ screen.base :=
    screen.apart.imp_left (Nat.le_trans (Nat.le_add_right _ _))
  rw [swapAlways, if_neg (by simp [coherent.initialized]), coherent.info, coherent.backBuffer,
    coherent.frontBuffer]
  refine Program.ensures_bind ((memcpy_ensures m apart).weaken ?_) fun _ _ copied => ⟨rfl, copied⟩
  rintro (⟨w, a⟩ | ⟨w, a, v⟩) _ range
  · trivial
  · exact .inr range

/-- Copying once more what is shown already. -/
theorem copyFrom_shown
    (shown : m.bytes screen.base screen.size = m.bytes screen.backBuffer screen.size) :
    m.copyFrom m screen.base screen.backBuffer screen.size = m := by
  funext x
  by_cases inside : screen.base ≤ x ∧ x < screen.base + screen.size
  · obtain ⟨i, rfl⟩ := Nat.exists_eq_add_of_le inside.1
    rw [Memory.copyFrom_inside _ _ (by omega)]
    exact (List.map_inj_left.mp shown i (List.mem_range.mpr (by omega))).symm
  · exact Memory.copyFrom_outside _ _ (by omega)

theorem swap_dirty (initialized : fb.initialized = true) (dirty : ¬fb.isDirty = false) :
    swap fb = swapAlways fb := by
  rw [swap, swapAlways, if_neg (by simp [initialized, dirty]), if_neg (by simp [initialized])]

/-- The test of `is_dirty` saves a copy that would change nothing. -/
theorem run_swap_eq (coherent : Coherent screen fb m) :
    (swap fb).run memHandler m = (swapAlways fb).run memHandler m := by
  by_cases clean : fb.isDirty = false
  · obtain ⟨fb', m', ran, rfl, rfl⟩ := (swapAlways_ensures coherent).returns
    rw [swap, if_pos (.inr clean), ran, copyFrom_shown (coherent.shown clean), ← clean]
    rfl
  · rw [swap_dirty coherent.initialized clean]

theorem swap_coherent (coherent : Coherent screen fb m) :
    (swap fb).Ensures memHandler screen.InBuffers m fun fb' m' =>
      Coherent screen fb' m' ∧ fb'.isDirty = false := by
  by_cases clean : fb.isDirty = false
  · rw [swap, if_pos (.inr clean)]
    exact ⟨coherent, clean⟩
  · rw [swap_dirty coherent.initialized clean]
    refine (swapAlways_ensures coherent).mono ?_
    rintro fb' m' ⟨rfl, rfl⟩
    exact ⟨⟨⟨coherent.info, coherent.backBuffer, coherent.initialized⟩, coherent.frontBuffer,
      fun _ => bytes_copied screen m⟩, rfl⟩

/-! ### Any calls -/

theorem call_coherent (coherent : Coherent screen fb m) (call : Call screen.toInfo) :
    (call.program font8x16 swap fb).Ensures memHandler screen.InBuffers m fun fb' m' =>
      Coherent screen fb' m' := by
  have wide : fb.info.width ≤ fb.info.pixelsInScanline := by
    rw [coherent.info]
    exact screen.width_le
  have drawn {p : MemProgram Framebuffer} (draws : Draws fb p) :
      p.Ensures memHandler screen.InBuffers m fun fb' m' => Coherent screen fb' m' :=
    ((draws m).weaken coherent.inBuffers).mono fun _ _ marked => coherent.marked marked
  cases call with
  | clear color => exact drawn (draws_clear fb color)
  | putCharAt c x y color => exact drawn (draws_putCharAt wide c x y color)
  | putChar c color => exact drawn (draws_putChar wide c color)
  | scroll lines some => exact drawn (draws_scroll fb some)
  | rectangle start s color fits =>
    exact drawn (draws_rectangle wide (by rw [coherent.info]; exact fits) color)
  | swap => exact (swap_coherent coherent).mono fun _ _ after => after.1

theorem callAll_coherent (coherent : Coherent screen fb m) (calls : List (Call screen.toInfo)) :
    (callAll font8x16 swap fb calls).Ensures memHandler screen.InBuffers m fun fb' m' =>
      Coherent screen fb' m' := by
  induction calls generalizing fb m with
  | nil => exact coherent
  | cons call rest ih =>
    exact Program.ensures_bind (call_coherent coherent call) fun _ _ coherent => ih coherent

theorem run_call_eq (font8x16 : Nat → UInt8) (coherent : Coherent screen fb m)
    (call : Call screen.toInfo) :
    (call.program font8x16 swap fb).run memHandler m =
      (call.program font8x16 swapAlways fb).run memHandler m := by
  cases call with
  | swap => exact run_swap_eq coherent
  | _ => rfl

theorem run_callAll_eq (font8x16 : Nat → UInt8) (coherent : Coherent screen fb m)
    (calls : List (Call screen.toInfo)) :
    (callAll font8x16 swap fb calls).run memHandler m =
      (callAll font8x16 swapAlways fb calls).run memHandler m := by
  induction calls generalizing fb m with
  | nil => rfl
  | cons call rest ih =>
    have kept : (call.program font8x16 swap fb).Ensures memHandler screen.InBuffers m _ :=
      call_coherent coherent call
    obtain ⟨fb', m', ran, coherent'⟩ := kept.returns
    have ran' := run_call_eq font8x16 coherent call
    rw [ran] at ran'
    rw [callAll, callAll, Program.run_bind, Program.run_bind, ran, ← ran', Option.bind_some,
      Option.bind_some, ih coherent']

theorem coherent_init (screen : Screen) (m : Memory) :
    (init {} screen.toInfo screen.backBuffer).Ensures memHandler screen.InBuffers m fun fb m' =>
      Coherent screen fb m' := by
  rw [init, if_neg screen.base_ne_zero]
  dsimp only
  refine Program.ensures_bind ((clear_ensures rfl rfl m).weaken ?_) ?_
  · rintro (⟨w, a⟩ | ⟨w, a, v⟩) _ inside
    · trivial
    · exact .inl inside
  · rintro fb m' ⟨rfl, -⟩
    exact (swap_coherent ⟨⟨rfl, rfl, rfl⟩, rfl, by simp⟩).mono fun _ _ after => after.1

/-- After `init`, any calls in any order stay in both buffers, return, and leave what they would leave
if every `swap` copied the whole buffer. After a `swap` the screen shows the back buffer, and as long as
nothing is marked it goes on to do so. -/
theorem swaps_unseen (font8x16 : Nat → UInt8) (screen : Screen) (m : Memory) :
    ∃ fb m₁, (init {} screen.toInfo screen.backBuffer).run memHandler m = some (fb, m₁) ∧
      ∀ calls : List (Call screen.toInfo),
        (callAll font8x16 swap fb calls).All memHandler screen.InBuffers m₁ ∧
          (callAll font8x16 swap fb calls).run memHandler m₁ =
            (callAll font8x16 swapAlways fb calls).run memHandler m₁ ∧
          ∃ fb₂ m₂, (callAll font8x16 swap fb calls).run memHandler m₁ = some (fb₂, m₂) ∧
            Coherent screen fb₂ m₂ ∧
            ∃ fb₃ m₃, (swap fb₂).run memHandler m₂ = some (fb₃, m₃) ∧
              m₃.bytes screen.base screen.size = m₃.bytes screen.backBuffer screen.size := by
  obtain ⟨fb, m₁, started, coherent⟩ := (coherent_init screen m).returns
  refine ⟨fb, m₁, started, fun calls => ?_⟩
  have kept : (callAll font8x16 swap fb calls).Ensures memHandler screen.InBuffers m₁ _ :=
    callAll_coherent coherent calls
  obtain ⟨fb₂, m₂, ran, coherent₂⟩ := kept.returns
  obtain ⟨fb₃, m₃, swapped, after, clean⟩ := (swap_coherent coherent₂).returns
  exact ⟨kept.all, run_callAll_eq font8x16 coherent calls, fb₂, m₂, ran, coherent₂, fb₃, m₃, swapped,
    after.shown clean⟩

end KopalniaOS.Gpu
