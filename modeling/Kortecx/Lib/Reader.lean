import Kortecx.Lib.Bytes

/-! A cursor over an immutable byte buffer, with errors. `Reads` says what a decoder
makes of the bytes an encoder writes, `Accepts` says what bytes it can have consumed
when it returns, and `Takes` says both at once. A decoder written as a sequence of
reads is specified along its own sequencing, one rule per read. -/

namespace Kortecx.Lib

open List

section Except

variable {ε α β : Type} {x : Except ε α} {f : α → Except ε β}

/-- A sequence of fallible steps succeeds when each of them does. -/
theorem except_bind_eq_ok : x >>= f = .ok b ↔ ∃ a, x = .ok a ∧ f a = .ok b := by
  cases x <;> simp [bind, Except.bind]

theorem except_bind_eq_error :
    x >>= f = .error e ↔ x = .error e ∨ ∃ a, x = .ok a ∧ f a = .error e := by
  cases x <;> simp [bind, Except.bind]

theorem except_map_eq_ok : x.map g = .ok b ↔ ∃ a, x = .ok a ∧ g a = b := by
  cases x <;> simp [Except.map]

theorem isOk_map {g : α → β} : (x.map g).isOk = x.isOk := by
  cases x <;> rfl

theorem toOption_eq_some : x.toOption = some a ↔ x = .ok a := by
  cases x <;> simp [Except.toOption]

theorem isSome_toOption : x.toOption.isSome = true ↔ ∃ a, x = .ok a := by
  cases x <;> simp [Except.toOption]

theorem except_mapError_eq_ok : x.mapError g = .ok a ↔ x = .ok a := by
  cases x <;> simp [Except.mapError]

variable {g : α → Except ε β} {bs : List β}

theorem mapM_cons_eq_ok {a : α} {rest : List α} :
    (a :: rest).mapM g = .ok bs ↔
      ∃ b bs', g a = .ok b ∧ rest.mapM g = .ok bs' ∧ bs = b :: bs' := by
  rw [mapM_cons, except_bind_eq_ok]
  constructor
  · rintro ⟨b, hb, hrest⟩
    obtain ⟨bs', hbs', hbs⟩ := except_bind_eq_ok.mp hrest
    cases hbs
    exact ⟨b, bs', hb, hbs', rfl⟩
  · rintro ⟨b, bs', hb, hbs', rfl⟩
    exact ⟨b, hb, except_bind_eq_ok.mpr ⟨bs', hbs', rfl⟩⟩

variable {items : List α}

theorem mapM_eq_ok_iff :
    items.mapM g = .ok bs ↔ List.Forall₂ (fun a b => g a = .ok b) items bs := by
  induction items generalizing bs with
  | nil =>
    constructor
    · intro hok
      cases hok
      exact .nil
    · intro hall
      cases hall
      rfl
  | cons a rest ih =>
    rw [mapM_cons_eq_ok]
    constructor
    · rintro ⟨b, bs', hb, hrest, rfl⟩
      exact .cons hb (ih.1 hrest)
    · intro hall
      cases hall with
      | cons hb hrest => exact ⟨_, _, hb, ih.2 hrest, rfl⟩

theorem mapM_ok_eq_ok (items : List α) :
    items.mapM (fun a => (Except.ok a : Except ε α)) = .ok items :=
  mapM_eq_ok_iff.2 (forall₂_same.2 fun _ _ => rfl)

theorem mapM_take_eq_ok
    (hok : items.mapM g = .ok bs) (n : Nat) : (items.take n).mapM g = .ok (bs.take n) :=
  mapM_eq_ok_iff.2 (forall₂_take n (mapM_eq_ok_iff.1 hok))

theorem mapM_drop_eq_ok
    (hok : items.mapM g = .ok bs) (n : Nat) : (items.drop n).mapM g = .ok (bs.drop n) :=
  mapM_eq_ok_iff.2 (forall₂_drop n (mapM_eq_ok_iff.1 hok))

/-- What each step says about its result carries over to the list of results. -/
theorem map_eq_of_mapM_ok {γ : Type} {p : β → γ} {q : α → γ} (hok : items.mapM g = .ok bs)
    (heach : ∀ a ∈ items, ∀ b, g a = .ok b → p b = q a) : bs.map p = items.map q := by
  induction items generalizing bs with
  | nil =>
    cases hok
    rfl
  | cons a rest ih =>
    obtain ⟨b, bs', hb, hbs', rfl⟩ := mapM_cons_eq_ok.mp hok
    rw [map_cons, map_cons, heach a (by simp) b hb,
      ih hbs' fun x hx => heach x (by simp [hx])]

/-- A step that is given its position has the result at that position. -/
theorem mapM_zipIdx_ok {items : List α} {g : α × Nat → Except ε β}
    (hok : items.zipIdx.mapM g = .ok bs) :
    bs.length = items.length ∧
      ∀ i b, bs[i]? = some b → ∃ a, items[i]? = some a ∧ g (a, i) = .ok b := by
  have hall := mapM_eq_ok_iff.1 hok
  have hlength := hall.length_eq
  rw [length_zipIdx] at hlength
  refine ⟨hlength.symm, fun i b hb => ?_⟩
  obtain ⟨hi, rfl⟩ := List.getElem?_eq_some_iff.1 hb
  have hat := hall.get (i := i) (by rwa [length_zipIdx, hlength]) hi
  exact ⟨items[i], List.getElem?_eq_getElem _, by simpa using hat⟩

/-- A sequence of steps over a list fails only where one of them does. -/
theorem exists_error_of_mapM {err : ε}
    (herr : items.mapM g = .error err) : ∃ a ∈ items, g a = .error err := by
  induction items with
  | nil => cases herr
  | cons a rest ih =>
    rw [mapM_cons, except_bind_eq_error] at herr
    rcases herr with ha | ⟨b, _, herr⟩
    · exact ⟨a, by simp, ha⟩
    rcases except_bind_eq_error.1 herr with hrest | ⟨_, _, hpure⟩
    · obtain ⟨x, hx, hfail⟩ := ih hrest
      exact ⟨x, by simp [hx], hfail⟩
    · cases hpure

/-- A loop that fails does so at an element, after those before it have gone through. -/
theorem exists_error_of_foldlM {f : β → α → Except ε β} {start : β} {err : ε}
    (herr : items.foldlM f start = .error err) :
    ∃ before a later acc, items = before ++ a :: later ∧ before.foldlM f start = .ok acc ∧
      f acc a = .error err := by
  induction items generalizing start with
  | nil => cases herr
  | cons a rest ih =>
    rw [foldlM_cons, except_bind_eq_error] at herr
    rcases herr with ha | ⟨next, ha, herr⟩
    · exact ⟨[], a, rest, start, rfl, rfl, ha⟩
    obtain ⟨before, x, later, acc, rfl, hbefore, hfail⟩ := ih herr
    refine ⟨a :: before, x, later, acc, rfl, ?_, hfail⟩
    rw [foldlM_cons, ha]
    exact hbefore

end Except

/-- A computation that sees the whole buffer and moves a cursor through it. -/
abbrev Reader (ε : Type) :=
  ReaderT (List UInt8) (StateT Nat (Except ε))

namespace Reader

variable {ε α β : Type}

/-- The next `n` bytes. `short got expected` is the error of a buffer of `got`
bytes that ends before offset `expected`. -/
def bytes (short : Nat → Nat → ε) (n : Nat) : Reader ε (ByteVec n) := fun body cursor =>
  if h : body.length < cursor + n then
    .error (short body.length (cursor + n))
  else
    .ok (⟨(body.drop cursor).take n, by simp; omega⟩, cursor + n)

/-- An `n`-byte little-endian number. -/
def le (short : Nat → Nat → ε) (n : Nat) : Reader ε Nat :=
  (fun v => leNat v.toList) <$> bytes short n

section Integers

variable (short : Nat → Nat → ε)

def u8 : Reader ε UInt8 :=
  UInt8.ofNat <$> le short 1

def u16 : Reader ε UInt16 :=
  UInt16.ofNat <$> le short 2

def u32 : Reader ε UInt32 :=
  UInt32.ofNat <$> le short 4

def u64 : Reader ε UInt64 :=
  UInt64.ofNat <$> le short 8

def u128 : Reader ε (BitVec 128) :=
  BitVec.ofNat 128 <$> le short 16

end Integers

/-- Whether the cursor stands before the end of the buffer. -/
def hasMore : Reader ε Bool := fun body cursor =>
  .ok (decide (cursor < body.length), cursor)

/-- Fail with `e` when `p` holds. -/
def rejectIf (p : Prop) [Decidable p] (e : ε) : Reader ε Unit := fun _ cursor =>
  if p then .error e else .ok ((), cursor)

/-- Fail unless the buffer has been consumed to its last byte. -/
def expectEnd (trailing : Nat → ε) : Reader ε Unit := fun body cursor =>
  if cursor ≠ body.length then .error (trailing (body.length - cursor)) else .ok ((), cursor)

/-- Fail unless `n` more bytes follow. -/
def atLeast (short : Nat → Nat → ε) (n : Nat) : Reader ε Unit := fun body cursor =>
  if body.length < cursor + n then .error (short body.length (cursor + n)) else .ok ((), cursor)

/-- Fail unless exactly `n` more bytes follow. -/
def exactly (short : Nat → Nat → ε) (n : Nat) : Reader ε Unit := fun body cursor =>
  if body.length ≠ cursor + n then .error (short body.length (cursor + n)) else .ok ((), cursor)

/-- Fail if more than `n` bytes follow. -/
def atMost (trailing : Nat → ε) (n : Nat) : Reader ε Unit := fun body cursor =>
  if body.length > cursor + n then .error (trailing (body.length - (cursor + n)))
  else .ok ((), cursor)

/-- Lift a lookup that may fail with `e`. -/
def orReject (o : Option α) (e : ε) : Reader ε α := fun _ cursor =>
  match o with
  | some a => .ok (a, cursor)
  | none => .error e

/-- `n` reads in a row, their results in order. -/
def many (r : Reader ε α) : Nat → Reader ε (List α)
  | 0 => pure []
  | n + 1 => do
    let a ← r
    let as ← many r n
    pure (a :: as)

/-- The bytes of several values one after the other; the first value that cannot
be written stops the write. -/
def encodeMany (enc : α → Except ε (List UInt8)) : List α → Except ε (List UInt8)
  | [] => .ok []
  | a :: as => do
    let xs ← enc a
    let ys ← encodeMany enc as
    .ok (xs ++ ys)

theorem encodeMany_cons_ok :
    encodeMany enc (a :: as) = .ok zs ↔
      ∃ xs ys, enc a = .ok xs ∧ encodeMany enc as = .ok ys ∧ zs = xs ++ ys := by
  simp only [encodeMany, except_bind_eq_ok, Except.ok.injEq]
  constructor
  · rintro ⟨xs, ha, ys, has, rfl⟩
    exact ⟨xs, ys, ha, has, rfl⟩
  · rintro ⟨xs, ys, ha, has, rfl⟩
    exact ⟨xs, ha, ys, has, rfl⟩

variable (r : Reader ε α)

theorem bind_apply (f : α → Reader ε β) (body : List UInt8) (cursor : Nat) :
    (r >>= f) body cursor = (r body cursor >>= fun p => f p.1 body p.2) := rfl

theorem map_apply (f : α → β) (body : List UInt8) (cursor : Nat) :
    (f <$> r) body cursor = ((fun p => (f p.1, p.2)) <$> r body cursor) := rfl

variable {body : List UInt8}

theorem ok_of_pure (h : (pure a : Reader ε α) body cursor = .ok (b, c)) : b = a := by
  cases h
  rfl

variable {r} {b : β}

/-- From any position, `r` consumes exactly `xs` and returns `a` when `rest` follows. -/
def Reads (r : Reader ε α) (xs : List UInt8) (a : α) (rest : List UInt8) : Prop :=
  ∀ before : List UInt8,
    r (before ++ (xs ++ rest)) before.length = .ok (a, (before ++ xs).length)

/-- Whenever `r` returns `a`, the bytes `xs` it consumed and the bytes `rest`
after them satisfy `P`. -/
def Accepts (r : Reader ε α) (P : α → List UInt8 → List UInt8 → Prop) : Prop :=
  ∀ (before tail : List UInt8) (a : α) (c : Nat),
    r (before ++ tail) before.length = .ok (a, c) →
      ∃ xs rest, tail = xs ++ rest ∧ c = (before ++ xs).length ∧ P a xs rest

/-- Whatever the buffer, every result of `r` satisfies `P`. -/
def Yields (r : Reader ε α) (P : α → Prop) : Prop :=
  ∀ (body : List UInt8) (cursor : Nat) (a : α) (c : Nat), r body cursor = .ok (a, c) → P a

theorem yields_pure (ha : P a) : Yields (pure a : Reader ε α) P := by
  intro body cursor b c hrun
  rwa [ok_of_pure hrun]

theorem yields_throw : Yields (throw e : Reader ε α) P := by
  intro body cursor a c hrun
  cases hrun

/-- The last step decides what a sequence of reads can return. -/
theorem yields_bind (hf : ∀ a, Yields (f a) P) : Yields (r >>= f) P := by
  intro body cursor b c hrun
  rw [bind_apply] at hrun
  obtain ⟨p, _, hlast⟩ := except_bind_eq_ok.mp hrun
  exact hf p.1 body p.2 b c hlast

section Reads

variable {xs ys rest : List UInt8} {a : α}

theorem reads_pure : Reads (pure a : Reader ε α) [] a rest := by
  intro before
  simp only [append_nil]
  rfl

theorem Reads.bind (hr : Reads r xs a (ys ++ rest))
    (hf : Reads (f a) ys b rest) : Reads (r >>= f) (xs ++ ys) b rest := by
  intro before
  have hfirst := hr before
  have hsecond := hf (before ++ xs)
  simp only [append_assoc] at hfirst hsecond ⊢
  rw [bind_apply, hfirst]
  exact hsecond

/-- `Reads.bind` for a step that consumes nothing. -/
theorem Reads.bind_nil (hr : Reads r [] a (xs ++ rest))
    (hf : Reads (f a) xs b rest) : Reads (r >>= f) xs b rest :=
  hr.bind hf

/-- `Reads.bind` for a last step that consumes nothing. -/
theorem Reads.bind_last (hr : Reads r xs a rest)
    (hf : Reads (f a) [] b rest) : Reads (r >>= f) xs b rest := by
  have h : Reads (r >>= f) (xs ++ []) b rest := hr.bind hf
  rwa [append_nil] at h

/-- A decoder that reads its whole buffer, run from the first byte. -/
theorem Reads.run (hr : Reads r xs a []) : r xs 0 = .ok (a, xs.length) := by
  have h := hr []
  simpa using h

end Reads

/-- `r` returns `a` exactly where the bytes it consumes and the bytes after them
satisfy `P`. -/
structure Takes (r : Reader ε α) (P : α → List UInt8 → List UInt8 → Prop) : Prop where
  reads : ∀ {a xs rest}, P a xs rest → Reads r xs a rest
  accepts : Accepts r P

section Takes

variable {f : α → Reader ε β} {P : α → List UInt8 → List UInt8 → Prop}
  {Q : α → β → List UInt8 → List UInt8 → Prop} {enc : α → List UInt8}

theorem Takes.congr (hr : Takes r P) (hPQ : ∀ a xs rest, P a xs rest ↔ P' a xs rest) :
    Takes r P' where
  reads hP := hr.reads ((hPQ ..).2 hP)
  accepts before tail a c h := by
    obtain ⟨xs, rest, htail, hc, hP⟩ := hr.accepts before tail a c h
    exact ⟨xs, rest, htail, hc, (hPQ ..).1 hP⟩

theorem Takes.bind (hr : Takes r P) (hf : ∀ a, Takes (f a) (Q a)) :
    Takes (r >>= f) fun b zs rest =>
      ∃ a xs ys, zs = xs ++ ys ∧ P a xs (ys ++ rest) ∧ Q a b ys rest where
  reads := by
    rintro b _ rest ⟨a, xs, ys, rfl, hP, hQ⟩
    exact (hr.reads hP).bind ((hf a).reads hQ)
  accepts before tail b c h := by
    rw [bind_apply] at h
    obtain ⟨⟨a, c'⟩, hfirst, h⟩ := except_bind_eq_ok.1 h
    obtain ⟨xs, rest, rfl, rfl, hP⟩ := hr.accepts before tail a c' hfirst
    rw [← append_assoc] at h
    obtain ⟨ys, rest, rfl, rfl, hQ⟩ := (hf a).accepts _ _ _ _ h
    exact ⟨xs ++ ys, rest, by simp, by simp, a, xs, ys, rfl, hP, hQ⟩

/-- `Takes.bind` for a field whose value determines its bytes. -/
theorem Takes.field (hr : Takes r fun a xs _ => xs = enc a) (hf : ∀ a, Takes (f a) (Q a)) :
    Takes (r >>= f) fun b zs rest => ∃ a ys, zs = enc a ++ ys ∧ Q a b ys rest := by
  refine (hr.bind hf).congr fun b zs rest => ?_
  constructor
  · rintro ⟨a, _, ys, rfl, rfl, hQ⟩
    exact ⟨a, ys, rfl, hQ⟩
  · rintro ⟨a, ys, rfl, hQ⟩
    exact ⟨a, _, ys, rfl, rfl, hQ⟩

/-- `Takes.bind` for a check, which consumes nothing. -/
theorem Takes.check {C : α → List UInt8 → Prop} (hr : Takes r fun a xs rest => xs = [] ∧ C a rest)
    (hf : ∀ a, Takes (f a) (Q a)) :
    Takes (r >>= f) fun b zs rest => ∃ a, C a (zs ++ rest) ∧ Q a b zs rest := by
  refine (hr.bind hf).congr fun b zs rest => ?_
  constructor
  · rintro ⟨a, _, ys, rfl, ⟨rfl, hC⟩, hQ⟩
    exact ⟨a, hC, hQ⟩
  · rintro ⟨a, hC, hQ⟩
    exact ⟨a, [], zs, rfl, ⟨rfl, hC⟩, hQ⟩

theorem Takes.map (hr : Takes r P) (g : α → β) :
    Takes (g <$> r) fun b xs rest => ∃ a, b = g a ∧ P a xs rest where
  reads := by
    rintro _ xs rest ⟨a, rfl, hP⟩ before
    rw [map_apply, hr.reads hP before]
    rfl
  accepts before tail b c h := by
    rw [map_apply] at h
    obtain ⟨p, hfirst, h⟩ := except_map_eq_ok.1 h
    cases h
    obtain ⟨xs, rest, htail, hc, hP⟩ := hr.accepts before tail p.1 p.2 hfirst
    exact ⟨xs, rest, htail, hc, p.1, rfl, hP⟩

theorem takes_pure (a : α) : Takes (pure a : Reader ε α) fun b xs _ => b = a ∧ xs = [] where
  reads := by
    rintro _ _ _ ⟨rfl, rfl⟩
    exact reads_pure
  accepts before tail b c h := by
    cases h
    exact ⟨[], tail, rfl, by simp, rfl, rfl⟩

theorem takes_throw : Takes (throw e : Reader ε α) fun _ _ _ => False where
  reads hP := hP.elim
  accepts before tail a c h := by cases h

variable {short : Nat → Nat → ε}

theorem takes_bytes (short : Nat → Nat → ε) (n : Nat) :
    Takes (bytes short n) fun v xs _ => xs = v.toList where
  reads := by
    rintro v _ rest rfl before
    have hroom : ¬ (before ++ (v.toList ++ rest)).length < before.length + n := by simp
    rw [bytes, dif_neg hroom]
    simp
  accepts before tail v c h := by
    rw [bytes] at h
    split at h
    · cases h
    rename_i hroom
    obtain ⟨rfl, rfl⟩ := h
    have hn : n ≤ tail.length := by
      simp only [length_append] at hroom
      omega
    exact ⟨tail.take n, tail.drop n, (take_append_drop n tail).symm, by simp [hn], by simp⟩

section Integers

theorem takes_le (short : Nat → Nat → ε) (n : Nat) :
    Takes (le short n) fun x xs _ => x < 256 ^ n ∧ xs = leBytes n x := by
  refine ((takes_bytes short n).map _).congr fun x xs rest => ?_
  constructor
  · rintro ⟨v, rfl, rfl⟩
    have hlt := leNat_lt v.toList
    have hbytes := leBytes_leNat v.toList
    rw [v.length_toList] at hlt hbytes
    exact ⟨hlt, hbytes.symm⟩
  · rintro ⟨hx, rfl⟩
    exact ⟨⟨leBytes n x, length_leBytes n x⟩, (leNat_leBytes hx).symm, rfl⟩

variable (short)

theorem takes_ofNat {toNat : β → Nat} (hofNat : ∀ k < 256 ^ n, toNat (ofNat k) = k)
    (htoNat : ∀ x, toNat x < 256 ^ n ∧ ofNat (toNat x) = x) :
    Takes (ofNat <$> le short n) fun x xs _ => xs = leBytes n (toNat x) := by
  refine ((takes_le short n).map _).congr fun x xs rest => ?_
  constructor
  · rintro ⟨k, rfl, hk, rfl⟩
    rw [hofNat k hk]
  · rintro rfl
    exact ⟨toNat x, (htoNat x).2.symm, (htoNat x).1, rfl⟩

theorem takes_u8 : Takes (u8 short) fun x xs _ => xs = [x] := by
  simp only [← leBytes_one]
  exact takes_ofNat short (fun _ => UInt8.toNat_ofNat_of_lt') fun x =>
    ⟨x.toNat_lt, UInt8.ofNat_toNat⟩

theorem takes_u16 : Takes (u16 short) fun x xs _ => xs = leBytes 2 x.toNat :=
  takes_ofNat short (fun _ => UInt16.toNat_ofNat_of_lt') fun x => ⟨x.toNat_lt, UInt16.ofNat_toNat⟩

theorem takes_u32 : Takes (u32 short) fun x xs _ => xs = leBytes 4 x.toNat :=
  takes_ofNat short (fun _ => UInt32.toNat_ofNat_of_lt') fun x => ⟨x.toNat_lt, UInt32.ofNat_toNat⟩

theorem takes_u64 : Takes (u64 short) fun x xs _ => xs = leBytes 8 x.toNat :=
  takes_ofNat short (fun _ => UInt64.toNat_ofNat_of_lt') fun x => ⟨x.toNat_lt, UInt64.ofNat_toNat⟩

theorem takes_u128 : Takes (u128 short) fun x xs _ => xs = leBytes 16 x.toNat :=
  takes_ofNat short (fun k hk => Nat.mod_eq_of_lt (show k < 2 ^ 128 from hk)) fun x =>
    ⟨x.isLt, by simp⟩

end Integers

/-- A first byte that says how to go on. -/
theorem Takes.tagged {f : UInt8 → Reader ε β} {t : β → UInt8}
    {Q : β → List UInt8 → List UInt8 → Prop}
    (hf : ∀ tag, Takes (f tag) fun b ys rest => t b = tag ∧ Q b ys rest) :
    Takes (u8 short >>= f) fun b zs rest => ∃ ys, zs = [t b] ++ ys ∧ Q b ys rest := by
  refine ((takes_u8 short).field hf).congr fun b zs rest => ?_
  constructor
  · rintro ⟨_, ys, rfl, rfl, hQ⟩
    exact ⟨ys, rfl, hQ⟩
  · rintro ⟨ys, rfl, hQ⟩
    exact ⟨_, ys, rfl, rfl, hQ⟩

theorem takes_hasMore :
    Takes (hasMore : Reader ε Bool) fun b xs rest => xs = [] ∧ b = !rest.isEmpty where
  reads := by
    rintro _ _ rest ⟨rfl, rfl⟩ before
    cases rest <;> simp [hasMore]
  accepts before tail b c h := by
    obtain ⟨rfl, rfl⟩ := h
    refine ⟨[], tail, rfl, by simp, rfl, ?_⟩
    cases tail <;> simp

/-- A step that reads nothing and fails when `p` holds. -/
theorem takes_check {p : List UInt8 → Nat → Prop} [∀ body cursor, Decidable (p body cursor)]
    {e : List UInt8 → Nat → ε} {C : List UInt8 → Prop}
    (hC : ∀ before rest, ¬p (before ++ rest) before.length ↔ C rest) :
    Takes (fun body cursor => if p body cursor then .error (e body cursor) else .ok ((), cursor) :
      Reader ε Unit) fun _ xs rest => xs = [] ∧ C rest where
  reads := by
    rintro _ _ rest ⟨rfl, hrest⟩ before
    have hp := (hC before rest).2 hrest
    simp [hp]
  accepts before tail _ c h := by
    dsimp only at h
    split at h
    · cases h
    rename_i hp
    cases h
    exact ⟨[], tail, rfl, by simp, rfl, (hC before tail).1 hp⟩

theorem takes_rejectIf {p : Prop} [Decidable p] {e : ε} :
    Takes (rejectIf p e) fun _ xs _ => xs = [] ∧ ¬p :=
  takes_check fun _ _ => .rfl

variable {trailing : Nat → ε} {n : Nat}

theorem takes_expectEnd : Takes (expectEnd trailing) fun _ xs rest => xs = [] ∧ rest = [] :=
  takes_check fun _ _ => by simp

/-- The last field of a value. -/
theorem Takes.last {g : α → β} (hr : Takes r P) :
    Takes (r >>= fun a => pure (g a)) fun b xs rest => ∃ a, P a xs rest ∧ b = g a := by
  refine (hr.bind fun _ => takes_pure _).congr fun b xs rest => ?_
  constructor
  · rintro ⟨a, xs, _, rfl, hP, rfl, rfl⟩
    exact ⟨a, by simpa using hP, rfl⟩
  · rintro ⟨a, hP, rfl⟩
    exact ⟨a, xs, [], by simp, hP, rfl, rfl⟩

/-- The last field of a buffer, after which nothing is left. -/
theorem Takes.lastEnd {g : α → β} (hr : Takes r P) :
    Takes (r >>= fun a => expectEnd trailing >>= fun _ => pure (g a)) fun b xs rest =>
      ∃ a, P a xs rest ∧ b = g a ∧ rest = [] := by
  refine (hr.bind fun _ => takes_expectEnd.last).congr fun b xs rest => ?_
  constructor
  · rintro ⟨a, xs, _, rfl, hP, _, ⟨rfl, rfl⟩, rfl⟩
    exact ⟨a, by simpa using hP, rfl, rfl⟩
  · rintro ⟨a, hP, rfl, rfl⟩
    exact ⟨a, xs, [], by simp, hP, (), ⟨rfl, rfl⟩, rfl⟩

theorem takes_atLeast : Takes (atLeast short n) fun _ xs rest => xs = [] ∧ n ≤ rest.length :=
  takes_check fun _ _ => by simp

theorem takes_exactly : Takes (exactly short n) fun _ xs rest => xs = [] ∧ rest.length = n :=
  takes_check fun _ _ => by simp

theorem takes_atMost : Takes (atMost trailing n) fun _ xs rest => xs = [] ∧ rest.length ≤ n :=
  takes_check fun _ _ => by simp

theorem takes_orReject (o : Option α) :
    Takes (orReject o e) fun a xs _ => xs = [] ∧ o = some a where
  reads := by
    rintro a _ rest ⟨rfl, ho⟩ before
    simp [orReject, ho]
  accepts before tail a c h := by
    cases o with
    | none => cases h
    | some a' =>
      cases h
      exact ⟨[], tail, rfl, by simp, rfl, rfl⟩

theorem takes_many {enc : α → Except β (List UInt8)} {V : α → Prop}
    (helem : Takes r fun a xs _ => V a ∧ enc a = .ok xs) (n : Nat) :
    Takes (many r n) fun as xs _ =>
      as.length = n ∧ (∀ a ∈ as, V a) ∧ encodeMany enc as = .ok xs := by
  induction n with
  | zero =>
    refine (takes_pure []).congr fun as xs rest => ?_
    constructor
    · rintro ⟨rfl, rfl⟩
      simp [encodeMany]
    · rintro ⟨hlen, -, has⟩
      cases length_eq_zero_iff.1 hlen
      cases has
      exact ⟨rfl, rfl⟩
  | succ n ih =>
    refine (helem.bind fun a => ih.bind fun as => takes_pure (a :: as)).congr fun as xs rest => ?_
    constructor
    · rintro ⟨a, xs, _, rfl, ⟨hV, ha⟩, as, ys, _, rfl, ⟨hlen, hVs, has⟩, rfl, rfl⟩
      exact ⟨by simp [hlen], forall_mem_cons.2 ⟨hV, hVs⟩,
        encodeMany_cons_ok.2 ⟨xs, ys, ha, has, by simp⟩⟩
    · rintro ⟨hlen, hVs, has⟩
      obtain ⟨a, as, rfl⟩ := exists_cons_of_length_eq_add_one hlen
      obtain ⟨xs, ys, ha, hrest, rfl⟩ := encodeMany_cons_ok.1 has
      obtain ⟨hV, hVs⟩ := forall_mem_cons.1 hVs
      exact ⟨a, xs, ys, rfl, ⟨hV, ha⟩, as, ys, [], by simp, ⟨by simpa using hlen, hVs, hrest⟩,
        rfl, rfl⟩

/-- A list behind its length, which is at most `max`. -/
theorem Takes.counted {enc : α → Except β (List UInt8)} {V : α → Prop} {max : Nat} {γ : Type}
    {e : UInt16 → ε} {f : List α → Reader ε γ} {Q : List α → γ → List UInt8 → List UInt8 → Prop}
    (hmax : max < 2 ^ 16) (helem : Takes r fun a xs _ => V a ∧ enc a = .ok xs)
    (hf : ∀ as, Takes (f as) (Q as)) :
    Takes (u16 short >>= fun n => rejectIf (n.toNat > max) (e n) >>= fun _ =>
      many r n.toNat >>= f) fun b zs rest => ∃ as xs ys, zs = leBytes 2 as.length ++ (xs ++ ys) ∧
        as.length ≤ max ∧ (∀ a ∈ as, V a) ∧ encodeMany enc as = .ok xs ∧ Q as b ys rest := by
  refine ((takes_u16 short).field fun n => takes_rejectIf.check fun _ =>
    (takes_many helem n.toNat).bind hf).congr fun b zs rest => ?_
  constructor
  · rintro ⟨n, _, rfl, -, hn, as, xs, ys, rfl, ⟨hlen, hV, has⟩, hQ⟩
    rw [← hlen] at hn ⊢
    exact ⟨as, xs, ys, rfl, not_lt.1 hn, hV, has, hQ⟩
  · rintro ⟨as, xs, ys, rfl, hle, hV, has, hQ⟩
    have hlen : (UInt16.ofNat as.length).toNat = as.length :=
      UInt16.toNat_ofNat_of_lt' (hle.trans_lt hmax)
    exact ⟨.ofNat as.length, _, by rw [hlen], (), by rw [hlen]; exact not_lt.2 hle, as, xs, ys, rfl,
      ⟨hlen.symm, hV, has⟩, hQ⟩

end Takes

end Reader

end Kortecx.Lib
