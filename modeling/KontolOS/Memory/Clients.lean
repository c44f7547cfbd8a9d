import Mathlib.Logic.Function.Basic
import KontolOS.Lib.Run
import KontolOS.Memory.Kfree
import KontolOS.Memory.Kmalloc

/-!
# The allocator and its clients

The allocator is used by calls and by writes to the memory it handed out.  To say what
its clients may rely on, a heap is paired with a record of the live allocations: for
each pointer handed out and not yet freed, how many bytes were requested and what its
owner last wrote there.  The record is not part of the program; `exec` keeps it from
the arguments and results of the calls alone.

`Owned h live bs` ties the three views together: the record `live` of the clients, the
block list `bs`, and the bytes of `h`.
-/

namespace KontolOS.Memory

open KontolOS.Lib Function

/-! ## Live allocations -/

/-- A live allocation, as its owner knows it. -/
structure Obj where
  /-- The number of bytes requested. -/
  req : Nat
  /-- What was last written to each byte, if anything. -/
  bytes : Nat → Option UInt8

/-- A fresh allocation holds nothing in particular. -/
def Obj.fresh (req : Nat) : Obj := ⟨req, fun _ ↦ none⟩

/-- The allocation after its owner wrote `data` at offset `off`. -/
def Obj.write (o : Obj) (off : Nat) (data : List UInt8) : Obj :=
  { o with bytes := fun i ↦ if off ≤ i ∧ i < off + data.length then data[i - off]? else o.bytes i }

/-- The allocation after `krealloc` to `req` bytes: the old bytes are carried over. -/
def Obj.resize (o : Obj) (req : Nat) : Obj :=
  { req := req, bytes := fun i ↦ if i < o.req then o.bytes i else none }

/-- A record of the live allocations: what each pointer leads to. -/
abbrev Live : Type := Nat → Option Obj

/-- The record after a call returned `ptr` for an allocation `o`. -/
def Live.grant (live : Live) (ptr : Nat) (o : Obj) : Live :=
  if ptr = null then live else update live ptr (some o)

theorem Live.grant_null (live : Live) (o : Obj) : live.grant null o = live := if_pos rfl

theorem Live.grant_of_ne {live : Live} {ptr : Nat} {o : Obj} (h : ptr ≠ null) :
    live.grant ptr o = update live ptr (some o) := if_neg h

theorem Live.grant_self {live : Live} {ptr : Nat} {o : Obj} (h : ptr ≠ null) :
    live.grant ptr o ptr = some o := by
  rw [Live.grant_of_ne h, update_self]

/-- What was live, stays so. -/
theorem Live.isSome_grant {live : Live} {p : Nat} (ptr : Nat) (o : Obj) (h : (live p).isSome) :
    (live.grant ptr o p).isSome := by
  rw [Live.grant]
  split
  · exact h
  · by_cases hp : p = ptr
    · rw [hp, update_self]
      rfl
    · rw [update_of_ne hp]
      exact h

/-- The record of two groups of clients together. -/
def Live.join (live rest : Live) : Live := fun p ↦ (live p).or (rest p)

/-- Two groups of clients hold different pointers. -/
def Live.Apart (live rest : Live) : Prop := ∀ p, (live p).isSome → rest p = none

/-- The heap together with what its clients hold. -/
structure Clients where
  /-- the allocator -/
  heap : Heap
  /-- the live allocations -/
  live : Live

/-- What clients do: call the allocator, or write to memory. -/
inductive Call
  | /-- `kmalloc(size)` -/ kmalloc (size : Nat)
  | /-- `kcalloc(num, size)` -/ kcalloc (num size : Nat)
  | /-- `krealloc(ptr, size)` -/ krealloc (ptr size : Nat)
  | /-- `kfree(ptr)` -/ kfree (ptr : Nat)
  | /-- `data` is written at offset `off` of the allocation `ptr` -/
    write (ptr off : Nat) (data : List UInt8)

/-- What the clients may do when no request exceeds `maxReq` bytes: free and reallocate
what is live, and write inside the bytes they requested. -/
def Legal (maxReq : Nat) (w : Clients) : Call → Prop
  | .kmalloc size => size ≤ maxReq
  | .kcalloc num size => num * size ≤ maxReq
  | .krealloc ptr size => (ptr = null ∨ (w.live ptr).isSome) ∧ size ≤ maxReq
  | .kfree ptr => ptr = null ∨ (w.live ptr).isSome
  | .write ptr off data => ∃ o, w.live ptr = some o ∧ off + data.length ≤ o.req

/-- A request that the allocator sizes correctly: rounding it up and adding the header does
not wrap around, or there is no free block to give out anyway. -/
def Harmless (h : Heap) (size : Nat) : Prop :=
  size ≤ maxRequest ∨ ∀ bs, BlockList h.mem h.heapStart bs → ∀ b ∈ bs, b.used = true

/-- What the clients may do when their requests are any 32-bit numbers, as long as each is
harmless. -/
def Careful (w : Clients) : Call → Prop
  | .kmalloc size => size < 2 ^ 32 ∧ Harmless w.heap size
  | .kcalloc num size => Harmless w.heap (mul32 num size)
  | .krealloc ptr size =>
      (ptr = null ∨ (w.live ptr).isSome) ∧ size < 2 ^ 32 ∧ Harmless w.heap size
  | .kfree ptr => ptr = null ∨ (w.live ptr).isSome
  | .write ptr off data => ∃ o, w.live ptr = some o ∧ off + data.length ≤ o.req

/-- Bounded requests are harmless. -/
theorem Legal.careful {maxReq : Nat} {w : Clients} {c : Call} (hmax : maxReq ≤ maxRequest)
    (hc : Legal maxReq w c) : Careful w c := by
  have hlt : ∀ size ≤ maxReq, size < 2 ^ 32 ∧ Harmless w.heap size := fun size hs ↦
    ⟨Nat.lt_of_le_of_lt (Nat.le_trans hs hmax) (by decide), .inl (Nat.le_trans hs hmax)⟩
  cases c with
  | kmalloc size => exact hlt size hc
  | kcalloc num size =>
      obtain ⟨h₁, h₂⟩ := hlt _ hc
      rw [← mul32_of_lt h₁] at h₂
      exact h₂
  | krealloc ptr size => exact ⟨hc.1, hlt size hc.2⟩
  | kfree ptr => exact hc
  | write ptr off data => exact hc

/-- The pointer a call returns (`NULL` if it returns none) and the state it leads to. -/
def exec (w : Clients) : Call → Option (Nat × Clients)
  | .kmalloc size => do
      let (ptr, heap) ← kmalloc w.heap size
      return (ptr, ⟨heap, w.live.grant ptr (.fresh size)⟩)
  | .kcalloc num size => do
      let (ptr, heap) ← kcalloc w.heap num size
      return (ptr, ⟨heap, w.live.grant ptr ⟨mul32 num size, fun _ ↦ some 0⟩⟩)
  | .krealloc ptr size => do
      let (newPtr, heap) ← krealloc w.heap ptr size
      match w.live ptr with
      | none => return (newPtr, ⟨heap, w.live.grant newPtr (.fresh size)⟩)
      | some o =>
          if size = 0 then return (newPtr, ⟨heap, update w.live ptr none⟩)
          else if newPtr = null then return (newPtr, ⟨heap, w.live⟩)
          else return (newPtr, ⟨heap, Live.grant (update w.live ptr none) newPtr (o.resize size)⟩)
  | .kfree ptr => do
      let heap ← kfree w.heap ptr
      return (null, ⟨heap, update w.live ptr none⟩)
  | .write ptr off data =>
      some (null, ⟨{ w.heap with mem := w.heap.mem.write (ptr + off) data },
        (w.live ptr).elim w.live fun o ↦ update w.live ptr (some (o.write off data))⟩)

/-- One step of a use of the heap whose calls are `legal`. -/
def ClientStep (legal : Clients → Call → Prop) (w : Clients) (c : Call) (w' : Clients) : Prop :=
  legal w c ∧ ∃ ptr, exec w c = some (ptr, w')

/-- After `memory_init` nothing is live. -/
def Clients.init (m : Mem) : Clients := ⟨memoryInit m, fun _ ↦ none⟩

/-- The states reached from `memory_init` by `legal` calls. -/
def Reachable (legal : Clients → Call → Prop) (w : Clients) : Prop :=
  ∃ m calls, Run (ClientStep legal) (Clients.init m) calls w

theorem Reachable.mono {legal legal' : Clients → Call → Prop} {w : Clients}
    (hr : Reachable legal w) (h : ∀ w c, legal w c → legal' w c) : Reachable legal' w := by
  obtain ⟨m, calls, hrun⟩ := hr
  exact ⟨m, calls, hrun.mono fun hs ↦ ⟨h _ _ hs.1, hs.2⟩⟩

section Join

variable {live rest : Live} {p : Nat} {o : Obj}

theorem join_nobody (live : Live) : live.join (fun _ ↦ none) = live :=
  funext fun _ ↦ Option.or_none

theorem join_of_some (h : live p = some o) : live.join rest p = some o := by
  rw [Live.join, h, Option.some_or]

/-- A change of what one group holds at `p`. -/
theorem join_update (hr : rest p = none) (x : Option Obj) :
    Live.join (update live p x) rest = update (live.join rest) p x := by
  funext q
  by_cases hq : q = p
  · subst hq
    rw [Live.join, update_self, update_self, hr, Option.or_none]
  · rw [Live.join, update_of_ne hq, update_of_ne hq, Live.join]

theorem Live.Apart.update (h : live.Apart rest) (hr : rest p = none) (x : Option Obj) :
    Live.Apart (update live p x) rest := by
  intro q hq
  by_cases hqp : q = p
  · rw [hqp, hr]
  · rw [update_of_ne hqp] at hq
    exact h q hq

end Join

/-! ## What the clients rely on -/

/-- **The client invariant**: the live allocations are the used blocks, each large enough
for what was requested, and their bytes are as their owners last wrote them. -/
structure Owned (h : Heap) (live : Live) (bs : List Block) : Prop where
  /-- the heap represents the list -/
  rep : Rep h bs
  /-- the live pointers lead to the used blocks -/
  live_iff : ∀ p, (live p).isSome ↔ ∃ b ∈ bs, b.used = true ∧ b.addr + sizeofBlock = p
  /-- a block has room for what was requested of it -/
  room : ∀ b ∈ bs, ∀ o, live (b.addr + sizeofBlock) = some o → o.req + sizeofBlock ≤ b.size
  /-- the bytes requested are as last written -/
  kept : ∀ p o, live p = some o → ∀ i < o.req, ∀ v, o.bytes i = some v → h.mem (p + i) = v

namespace Owned

variable {h : Heap} {live : Live} {bs bs' : List Block} {b : Block} {p size : Nat} {o o' : Obj}

/-- The block behind a live pointer. -/
theorem block_of_live (hw : Owned h live bs) (hp : live p = some o) :
    ∃ b ∈ bs, b.used = true ∧ b.addr + sizeofBlock = p ∧ o.req + sizeofBlock ≤ b.size := by
  obtain ⟨b, hb, hbu, rfl⟩ := (hw.live_iff p).mp (by rw [hp]; rfl)
  exact ⟨b, hb, hbu, rfl, hw.room b hb o hp⟩

/-- `NULL` is never live. -/
theorem live_null (hw : Owned h live bs) : live null = none := by
  cases hn : live null with
  | none => rfl
  | some o =>
      obtain ⟨b, _, _, hb, _⟩ := hw.block_of_live hn
      unfold sizeofBlock null at hb
      omega

/-- Two allocations do not overlap, nor does one of them with the header of the other. -/
theorem header_apart (hw : Owned h live bs) {q : Nat} (hp : live p = some o)
    (hq : live q = some o') (hne : p ≠ q) :
    p + o.req + sizeofBlock ≤ q ∨ q + o'.req + sizeofBlock ≤ p := by
  obtain ⟨b, hb, _, rfl, hreq⟩ := hw.block_of_live hp
  obtain ⟨c, hc, _, rfl, hreq'⟩ := hw.block_of_live hq
  rcases hw.rep.linked.tiles.eq_or_disjoint hb hc with rfl | hd | hd
  · exact absurd rfl hne
  · unfold Block.fin at hd
    exact .inl (by omega)
  · unfold Block.fin at hd
    exact .inr (by omega)

/-- Two allocations do not overlap. -/
theorem apart (hw : Owned h live bs) {q : Nat} (hp : live p = some o) (hq : live q = some o')
    (hne : p ≠ q) : p + o.req ≤ q ∨ q + o'.req ≤ p :=
  (hw.header_apart hp hq hne).imp Nat.le_of_add_right_le Nat.le_of_add_right_le

/-- Replacing the contents of one allocation, its size possibly included, by others that
are in memory and fit the block. -/
theorem replace (o' : Obj) (m : Mem) (hw : Owned h live bs) (hp : live p = some o)
    (hroom : ∀ b ∈ bs, b.addr + sizeofBlock = p → o'.req + sizeofBlock ≤ b.size)
    (hoff : ∀ b ∈ bs, b.addr + sizeofBlock = p → ∀ x, x < p ∨ b.fin ≤ x → m x = h.mem x)
    (hkept : ∀ i < o'.req, ∀ v, o'.bytes i = some v → m (p + i) = v) :
    Owned { h with mem := m } (update live p (some o')) bs := by
  obtain ⟨b, hb, hbu, rfl, hreq⟩ := hw.block_of_live hp
  have hl := hw.rep.linked
  have hoff := hoff b hb rfl
  have hapart : ∀ c ∈ bs, c ≠ b → ∀ x, c.addr ≤ x → x < c.fin → m x = h.mem x := by
    intro c hc hne x hx hx'
    refine hoff x ?_
    rcases hl.tiles.eq_or_disjoint hc hb with rfl | hd | hd
    · exact absurd rfl hne
    · exact .inl (by omega)
    · exact .inr (by omega)
  refine ⟨⟨hl.congr ?_, hw.rep.coalesced, hw.rep.head, hw.rep.total, hw.rep.used⟩, ?_, ?_, ?_⟩
  · intro c hc i hi
    by_cases hcb : c = b
    · subst hcb
      exact hoff _ (.inl (by omega))
    · have := (hl.bounds hc).2.1
      exact hapart c hc hcb _ (by omega) (by omega)
  · intro q
    by_cases hq : q = b.addr + sizeofBlock
    · subst hq
      simp only [update_self, Option.isSome_some, true_iff]
      exact ⟨b, hb, hbu, rfl⟩
    · rw [update_of_ne hq]
      exact hw.live_iff q
  · intro c hc o₁ ho₁
    by_cases hcb : c.addr + sizeofBlock = b.addr + sizeofBlock
    · rw [hcb, update_self] at ho₁
      cases ho₁
      exact hroom c hc hcb
    · rw [update_of_ne hcb] at ho₁
      exact hw.room c hc o₁ ho₁
  · intro q o₁ ho₁ i hi v hv
    by_cases hq : q = b.addr + sizeofBlock
    · subst hq
      rw [update_self] at ho₁
      cases ho₁
      exact hkept i hi v hv
    · rw [update_of_ne hq] at ho₁
      obtain ⟨c, hc, _, rfl, hcreq⟩ := hw.block_of_live ho₁
      have hcb : c ≠ b := fun heq ↦ hq (by rw [heq])
      change m _ = v
      rw [hapart c hc hcb _ (by omega) (by unfold Block.fin; omega)]
      exact hw.kept _ o₁ ho₁ i hi v hv

/-- What its owner does to the bytes it requested, it may request fewer then. -/
theorem overwrite (o' : Obj) {m : Mem} (hw : Owned h live bs) (hp : live p = some o)
    (hreq : o'.req ≤ o.req) (hoff : ∀ x, x < p ∨ p + o.req ≤ x → m x = h.mem x)
    (hkept : ∀ i < o'.req, ∀ v, o'.bytes i = some v → m (p + i) = v) :
    Owned { h with mem := m } (update live p (some o')) bs := by
  have hroom : ∀ b ∈ bs, b.addr + sizeofBlock = p → o.req + sizeofBlock ≤ b.size := by
    rintro b hb rfl
    exact hw.room b hb o hp
  refine replace o' m hw hp (fun b hb hbp ↦ ?_) (fun b hb hbp x hx ↦ hoff x ?_) hkept
  · exact Nat.le_trans (Nat.add_le_add_right hreq _) (hroom b hb hbp)
  · have := hroom b hb hbp
    unfold Block.fin at hx
    omega

/-- A write inside the bytes requested. -/
theorem write (hw : Owned h live bs) (hp : live p = some o) {off : Nat} {data : List UInt8}
    (hin : off + data.length ≤ o.req) :
    Owned { h with mem := h.mem.write (p + off) data } (update live p (some (o.write off data)))
      bs := by
  refine hw.overwrite (o.write off data) hp (Nat.le_refl _) (fun x hx ↦ ?_) fun i hi v hv ↦ ?_
  · exact Mem.write_off (by omega)
  · simp only [Obj.write] at hv hi
    split at hv
    · rw [show p + i = p + off + (i - off) by omega]
      exact Mem.write_at hv
    · rw [Mem.write_off (by omega)]
      exact hw.kept p o hp i hi v hv

/-- Whatever its owner does to the bytes of an allocation, it knows them afterwards. -/
theorem overwrite_all (hw : Owned h live bs) (hp : live p = some o) {m : Mem}
    (hoff : ∀ x, x < p ∨ p + o.req ≤ x → m x = h.mem x) :
    Owned { h with mem := m } (update live p (some ⟨o.req, fun k ↦ some (m (p + k))⟩)) bs :=
  hw.overwrite _ hp (Nat.le_refl _) hoff fun _ _ _ hv ↦ Option.some.inj hv

/-- The first addresses of the allocated blocks are new. -/
private theorem alloc_addr_ne (hl : Linked h.mem bs) {n : Nat}
    (ha : alloc n splitSlack bs = some (b, bs')) {c : Block} (hc : c ∈ bs) (hcu : c.used = true) :
    c.addr ≠ b.addr := by
  obtain ⟨f, hf, hfu, hbf, _⟩ := alloc_from_free ha
  intro heq
  have := hl.tiles.eq_of_addr_eq hc hf (heq.trans hbf)
  rw [this, hfu] at hcu
  cases hcu

/-- **`kmalloc`, when it succeeds**: a pointer that was not live, to a fresh allocation. -/
theorem kmalloc_some (hw : Owned h live bs) (hpos : 0 < size) (hmax : size ≤ maxRequest)
    (ha : alloc (totalSize size) splitSlack bs = some (b, bs')) :
    ∃ h', kmalloc h size = some (b.addr + sizeofBlock, h') ∧
      live (b.addr + sizeofBlock) = none ∧
      Owned h' (update live (b.addr + sizeofBlock) (some (.fresh size))) bs' := by
  obtain ⟨h', hk, hr', hoff⟩ := Memory.kmalloc_some hw.rep hpos hmax ha
  have hl := hw.rep.linked
  have hl' := hr'.linked
  have hbu := alloc_used ha
  have hbmem := alloc_mem ha
  have hold : ∀ c ∈ bs, c.used = true → c.addr + sizeofBlock ≠ b.addr + sizeofBlock :=
    fun c hc hcu heq ↦ alloc_addr_ne hl ha hc hcu (by omega)
  have hfresh : live (b.addr + sizeofBlock) = none := by
    rw [← Option.not_isSome_iff_eq_none, hw.live_iff]
    rintro ⟨c, hc, hcu, heq⟩
    exact hold c hc hcu heq
  refine ⟨h', hk, hfresh, hr', ?_, ?_, ?_⟩
  · intro p
    by_cases hp : p = b.addr + sizeofBlock
    · subst hp
      simp only [update_self, Option.isSome_some, true_iff]
      exact ⟨b, hbmem, hbu, rfl⟩
    · rw [update_of_ne hp, hw.live_iff]
      constructor
      · rintro ⟨c, hc, hcu, rfl⟩
        exact ⟨c, (mem_alloc_iff ha hcu).mpr (.inl hc), hcu, rfl⟩
      · rintro ⟨c, hc, hcu, rfl⟩
        rcases (mem_alloc_iff ha hcu).mp hc with hc | rfl
        · exact ⟨c, hc, hcu, rfl⟩
        · exact absurd rfl hp
  · intro c hc o ho
    by_cases hcb : c.addr + sizeofBlock = b.addr + sizeofBlock
    · rw [hcb, update_self] at ho
      cases ho
      have hsame := hl'.tiles.eq_of_addr_eq hc hbmem (by omega)
      have h₁ := (totalSize_bounds hmax).1
      have h₂ := (alloc_size_bounds (by decide) ha).1
      rw [hsame]
      change size + sizeofBlock ≤ b.size
      omega
    · rw [update_of_ne hcb] at ho
      obtain ⟨d, hd, hdu, hdc, hreq⟩ := hw.block_of_live ho
      have hsame := hl'.tiles.eq_of_addr_eq hc ((mem_alloc_iff ha hdu).mpr (.inl hd)) (by omega)
      rw [hsame]
      exact hreq
  · intro p o ho i hi v hv
    by_cases hp : p = b.addr + sizeofBlock
    · subst hp
      rw [update_self] at ho
      cases ho
      cases hv
    · rw [update_of_ne hp] at ho
      obtain ⟨d, hd, hdu, rfl, hreq⟩ := hw.block_of_live ho
      rw [hoff _ (not_inFree_of_used hl hd hdu (by omega) (by unfold Block.fin; omega))]
      exact hw.kept _ o ho i hi v hv

/-- `kmalloc` either returns `NULL` and changes nothing, or grants a fresh allocation. -/
theorem kmalloc (hw : Owned h live bs) (hs : Harmless h size) :
    kmalloc h size = some (null, h) ∨
    ∃ b bs' h', alloc (totalSize size) splitSlack bs = some (b, bs') ∧
      kmalloc h size = some (b.addr + sizeofBlock, h') ∧ live (b.addr + sizeofBlock) = none ∧
      Owned h' (update live (b.addr + sizeofBlock) (some (.fresh size))) bs' := by
  rcases Nat.eq_zero_or_pos size with rfl | hpos
  · exact .inl rfl
  · cases ha : alloc (totalSize size) splitSlack bs with
    | none => exact .inl (kmalloc_none hw.rep hpos ha)
    | some r =>
        rcases hs with hmax | hfull
        · obtain ⟨h', hk, hfresh, hw'⟩ := hw.kmalloc_some hpos hmax ha
          exact .inr ⟨r.1, r.2, h', rfl, hk, hfresh, hw'⟩
        · -- first fit takes a free block, and there is none
          obtain ⟨c, hc, hcu, _⟩ := alloc_from_free ha
          rw [hfull bs (BlockList.of_rep hw.rep) c hc] at hcu
          cases hcu

/-- **`kfree`** of a live pointer: it is live no more, and nothing else changes. -/
theorem kfree (hw : Owned h live bs) (hp : live p = some o) :
    ∃ b ∈ bs, b.addr + sizeofBlock = p ∧ ∃ h', kfree h p = some h' ∧
      Owned h' (update live p none) (release b.addr bs) := by
  obtain ⟨b, hb, hbu, rfl, _⟩ := hw.block_of_live hp
  have hl := hw.rep.linked
  obtain ⟨h', hk, hr', hoff⟩ := kfree_used hw.rep hb hbu
  refine ⟨b, hb, rfl, h', hk, hr', ?_, ?_, ?_⟩
  · intro q
    by_cases hq : q = b.addr + sizeofBlock
    · subst hq
      simp only [update_self, Option.isSome_none, Bool.false_eq_true, false_iff]
      rintro ⟨c, hc, hcu, heq⟩
      exact ((mem_release_iff hcu).mp hc).2 (by omega)
    · rw [update_of_ne hq, hw.live_iff]
      constructor
      · rintro ⟨c, hc, hcu, rfl⟩
        exact ⟨c, (mem_release_iff hcu).mpr ⟨hc, fun heq ↦ hq (by rw [heq])⟩, hcu, rfl⟩
      · rintro ⟨c, hc, hcu, rfl⟩
        exact ⟨c, ((mem_release_iff hcu).mp hc).1, hcu, rfl⟩
  · intro c hc o₁ ho₁
    by_cases hcb : c.addr + sizeofBlock = b.addr + sizeofBlock
    · rw [hcb, update_self] at ho₁
      cases ho₁
    · rw [update_of_ne hcb] at ho₁
      obtain ⟨d, hd, hdu, hdc, hreq⟩ := hw.block_of_live ho₁
      have hd' := (mem_release_iff (a := b.addr) hdu).mpr ⟨hd, by omega⟩
      rw [hr'.linked.tiles.eq_of_addr_eq hc hd' (by omega)]
      exact hreq
  · intro q o₁ ho₁ i hi v hv
    by_cases hq : q = b.addr + sizeofBlock
    · subst hq
      rw [update_self] at ho₁
      cases ho₁
    · rw [update_of_ne hq] at ho₁
      obtain ⟨d, hd, hdu, rfl, hreq⟩ := hw.block_of_live ho₁
      have hdb : d ≠ b := fun heq ↦ hq (by rw [heq])
      -- a byte of another used block is in no header that `kfree` writes
      have hout : ∀ c ∈ bs, c ≠ d → d.addr + sizeofBlock + i < c.addr ∨
          c.addr + sizeofBlock ≤ d.addr + sizeofBlock + i := by
        intro c hc hcd
        have := (hl.bounds hc).2.1
        have : d.addr + sizeofBlock + i < d.fin := by unfold Block.fin; omega
        rcases hl.tiles.eq_or_disjoint hc hd with rfl | hdj | hdj
        · exact absurd rfl hcd
        · exact .inr (by omega)
        · exact .inl (by omega)
      rw [hoff _ (.of_off (hout b hb hdb.symm)) fun c hc hcu ↦ .of_off (hout c hc fun heq ↦ by
        rw [heq, hdu] at hcu
        cases hcu), setUsed_off (hout b hb hdb.symm)]
      exact hw.kept _ o₁ ho₁ i hi v hv

end Owned

end KontolOS.Memory
