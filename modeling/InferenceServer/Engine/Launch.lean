import InferenceServer.Engine.Cuda
import InferenceServer.Engine.Kernel

/-!
# The launch configuration

Library `Engine`. `cpp/src/kernels/normalize.cu:8–79`. The grid is capped, so with many elements
a thread loops. Whatever the ratio of elements to threads, each index belongs to one thread,
the counter stays inside `long long` when one stride of room is left, and the order in which
the threads run does not matter.
-/

namespace InferenceServer.Engine

open InferenceServer.Base InferenceServer.Base.Act InferenceServer.Memory

variable {F σ : Type}

/-- `blocks` of `launch_normalize`, `normalize.cu:72–73`. -/
def launchedBlocks (total : Nat) : Nat := min ((total + 256 - 1) / 256) 1024

/-- Indices visited by thread `thread` of block `block`, `normalize.cu:26–29`. -/
def visited (blocks total block thread : Nat) : List Nat :=
  strided total (256 * blocks) total (block * 256 + thread)

/-- The kernel that is queued for dimensions the launch accepts. -/
theorem launchNormalizeOn_outcome {data : PooledBuffer} {n c hw : Int} {mean stddev : List F}
    (hn : 1 ≤ n) (hc : 1 ≤ c) (hhw : 1 ≤ hw) (hptr : data.ptr ≠ 0) (hm : mean ≠ [])
    (hd : stddev ≠ []) (hcap : n.toNat * c.toNat * hw.toNat ≤ data.capacity / 4)
    (hlt : n.toNat * c.toNat * hw.toNat < 2 ^ 63) (s : σ) :
    (launchNormalizeOn data n c hw mean stddev none).outcome s =
      some (.ok (some (.normalize data.ptr (launchedBlocks (n.toNat * c.toNat * hw.toNat))
        (n.toNat * c.toNat * hw.toNat) c.toNat hw.toNat)), s) := by
  unfold launchNormalizeOn
  rw [if_neg (by omega), if_neg (by omega), if_neg (by omega), if_neg (by simp [hptr, hm, hd])]
  dsimp only
  rw [if_neg (by omega)]
  rfl

section Grid

variable {blocks total block block' thread thread' j : Nat}

theorem launchedBlocks_pos (h : 0 < total) : 1 ≤ launchedBlocks total := by
  unfold launchedBlocks
  omega

theorem launchedBlocks_le (total : Nat) : launchedBlocks total ≤ 1024 := Nat.min_le_right _ _

/-- A thread's number in the grid. -/
theorem thread_lt (hb : block < blocks) (ht : thread < 256) :
    block * 256 + thread < 256 * blocks := by
  omega

theorem mem_visited (hb : block < blocks) (ht : thread < 256) :
    j ∈ visited blocks total block thread ↔
      j < total ∧ j % (256 * blocks) = block * 256 + thread :=
  mem_thread (thread_lt hb ht)

/-- Different threads visit different indices. -/
theorem visited_disjoint (hb : block < blocks) (ht : thread < 256) (hb' : block' < blocks)
    (ht' : thread' < 256) (hne : (block, thread) ≠ (block', thread')) :
    (visited blocks total block thread).Disjoint (visited blocks total block' thread') := by
  intro j hj hj'
  have hnumber := ((mem_visited hb ht).mp hj).2.symm.trans ((mem_visited hb' ht').mp hj').2
  apply hne
  rw [Prod.mk.injEq]
  omega

/-- Together the threads visit every index. -/
theorem exists_mem_visited (hblocks : 0 < blocks) :
    (∃ block < blocks, ∃ thread < 256, j ∈ visited blocks total block thread) ↔ j < total := by
  constructor
  · rintro ⟨block, hb, thread, ht, hj⟩
    exact ((mem_visited hb ht).mp hj).1
  · intro hj
    have hlt : j % (256 * blocks) < 256 * blocks := Nat.mod_lt _ (by omega)
    have hb : j % (256 * blocks) / 256 < blocks := by omega
    have ht : j % (256 * blocks) % 256 < 256 := Nat.mod_lt _ (by decide)
    exact ⟨_, hb, _, ht, (mem_visited hb ht).mpr ⟨hj, (Nat.div_add_mod' _ _).symm⟩⟩

end Grid

variable [FloatOps F]

/-- A thread's loop is the loop over the indices it visits. -/
theorem normalizeThread_visited (blocks total c hw block thread : Nat) (mean stddev xs : List F) :
    normalizeThread total (256 * blocks) c hw mean stddev total (block * 256 + thread) xs =
      (visited blocks total block thread).foldl
        (fun xs idx ↦ normalizeAt c hw mean stddev idx xs) xs := by
  simp only [normalizeThread_eq_foldl, normalizeAt_eq_modify]
  rfl

/-- The kernel's result is that of its iterations in any order. -/
theorem foldl_order {blocks total : Nat} (hblocks : 0 < blocks) (c hw : Nat)
    (mean stddev xs : List F) {order : List Nat} (hn : order.Nodup)
    (hmem : ∀ j, j ∈ order ↔ ∃ block < blocks, ∃ thread < 256,
      j ∈ visited blocks total block thread) :
    order.foldl (fun xs idx ↦ normalizeAt c hw mean stddev idx xs) xs =
      normalizeKernel blocks total c hw mean stddev xs := by
  have hpos : 0 < blocks * 256 := Nat.mul_pos hblocks (by decide)
  simp only [normalizeAt_eq_modify]
  rw [normalizeKernel_eq_foldl]
  apply foldl_modify_congr _ hn (nodup_gridIndices hpos)
  intro j
  rw [hmem, exists_mem_visited hblocks, mem_gridIndices hpos]

/-- The channel of a flat NCHW index. -/
theorem channel_of_index {c hw b ch p : Nat} (hch : ch < c) (hp : p < hw) :
    ((b * c + ch) * hw + p) / hw % c = ch := by
  have hplane : ((b * c + ch) * hw + p) / hw = b * c + ch := by
    rw [Nat.mul_comm, Nat.mul_add_div (by omega), Nat.div_eq_of_lt hp, Nat.add_zero]
  rw [hplane, Nat.mul_comm, Nat.mul_add_mod, Nat.mod_eq_of_lt hch]

/-- When the element count leaves one stride of room in `long long`, `launch_normalize` queues
`normalize_kernel` with 1 to 1024 blocks of 256 threads. A thread's loop visits distinct indices and
never overflows; the index sets of the threads are disjoint and cover exactly the elements; the
channel of an index is that of its plane. Run in any order, the iterations leave each element
normalized once by its channel. -/
theorem launch_normalizes_each_once {data : PooledBuffer} {n c hw : Int} {mean stddev : List F}
    (hn : 1 ≤ n) (hc : 1 ≤ c) (hhw : 1 ≤ hw) (hptr : data.ptr ≠ 0) (hm : mean ≠ [])
    (hd : stddev ≠ []) (hcap : n.toNat * c.toNat * hw.toNat ≤ data.capacity / 4)
    (hroom : n.toNat * c.toNat * hw.toNat +
      256 * launchedBlocks (n.toNat * c.toNat * hw.toNat) < 2 ^ 63) :
    ∃ blocks total, 1 ≤ blocks ∧ blocks ≤ 1024 ∧ total = n.toNat * c.toNat * hw.toNat ∧
      (∀ s : σ, (launchNormalizeOn data n c hw mean stddev none).outcome s =
        some (.ok (some (.normalize data.ptr blocks total c.toNat hw.toNat)), s)) ∧
      (∀ block < blocks, ∀ thread < 256,
        (∀ xs, normalizeThread total (256 * blocks) c.toNat hw.toNat mean stddev total
            (block * 256 + thread) xs =
          (visited blocks total block thread).foldl
            (fun xs idx ↦ normalizeAt c.toNat hw.toNat mean stddev idx xs) xs) ∧
        (visited blocks total block thread).Nodup ∧
        ∀ idx ∈ visited blocks total block thread, idx + 256 * blocks < 2 ^ 63) ∧
      (∀ block < blocks, ∀ thread < 256, ∀ block' < blocks, ∀ thread' < 256,
        (block, thread) ≠ (block', thread') →
        (visited blocks total block thread).Disjoint (visited blocks total block' thread')) ∧
      (∀ idx, (∃ block < blocks, ∃ thread < 256, idx ∈ visited blocks total block thread) ↔
        idx < total) ∧
      (∀ b ch p, ch < c.toNat → p < hw.toNat →
        ((b * c.toNat + ch) * hw.toNat + p) / hw.toNat % c.toNat = ch) ∧
      ∀ order : List Nat, order.Nodup →
        (∀ idx, idx ∈ order ↔
          ∃ block < blocks, ∃ thread < 256, idx ∈ visited blocks total block thread) →
        ∀ xs : List F,
          order.foldl (fun xs idx ↦ normalizeAt c.toNat hw.toNat mean stddev idx xs) xs =
            normalizeKernel blocks total c.toNat hw.toNat mean stddev xs ∧
          ∀ b ch p x m d, b < n.toNat → ch < c.toNat → p < hw.toNat →
            xs[(b * c.toNat + ch) * hw.toNat + p]? = some x → mean[ch]? = some m →
            stddev[ch]? = some d →
            (normalizeKernel blocks total c.toNat hw.toNat mean stddev xs)[
              (b * c.toNat + ch) * hw.toNat + p]? = some ((x - m) / d) := by
  have hpos : 0 < n.toNat * c.toNat * hw.toNat :=
    Nat.mul_pos (Nat.mul_pos (by omega) (by omega)) (by omega)
  have hblocks := launchedBlocks_pos hpos
  refine ⟨launchedBlocks (n.toNat * c.toNat * hw.toNat), _, hblocks, launchedBlocks_le _, rfl,
    launchNormalizeOn_outcome hn hc hhw hptr hm hd hcap (by omega), ?_, ?_, ?_, ?_, ?_⟩
  · intro block hb thread ht
    refine ⟨normalizeThread_visited _ _ _ _ _ _ _ _, nodup_strided (by omega), ?_⟩
    intro idx hidx
    have hlt := ((mem_visited hb ht).mp hidx).1
    omega
  · intro block hb thread ht block' hb' thread' ht' hne
    exact visited_disjoint hb ht hb' ht' hne
  · intro idx
    exact exists_mem_visited hblocks
  · intro b ch p hch hp
    exact channel_of_index hch hp
  · intro order hnodup hmem xs
    refine ⟨foldl_order hblocks _ _ _ _ _ hnodup hmem, ?_⟩
    intro b ch p x m d hb hch hp hx hmean hstd
    have hplane : b * c.toNat + ch < n.toNat * c.toNat := by
      have := Nat.mul_le_mul_right c.toNat (Nat.succ_le_of_lt hb)
      rw [Nat.succ_mul] at this
      omega
    have hlt : (b * c.toNat + ch) * hw.toNat + p < n.toNat * c.toNat * hw.toNat := by
      have := Nat.mul_le_mul_right hw.toNat (Nat.succ_le_of_lt hplane)
      rw [Nat.succ_mul] at this
      omega
    rw [getElem?_normalizeKernel hblocks, if_pos hlt, hx, Option.map_some, normalizedAt,
      channel_of_index hch hp, hmean, hstd]

/-- Two images of two channels of 150 elements: three blocks, the last one partly filled. -/
theorem launch_normalizes_each_once_pair :
    ∃ blocks total, total = 600 ∧
      (launchNormalizeOn ⟨true, 1, 4096, 2400, false⟩ 2 2 150 [(1 : Int), 2] [3, 4] none).outcome
        () = some (.ok (some (.normalize 1 blocks total 2 150)), ()) ∧
      ∀ idx, (∃ block < blocks, ∃ thread < 256, idx ∈ visited blocks total block thread) ↔
        idx < 600 := by
  have hroom : 2 * 2 * 150 + 256 * launchedBlocks (2 * 2 * 150) < 2 ^ 63 := by decide
  obtain ⟨blocks, total, -, -, htotal, hlaunch, -, -, hcover, -⟩ :=
    launch_normalizes_each_once (F := Int) (n := 2) (c := 2)
      (by decide) (by decide) (show (1 : Int) ≤ 150 by decide)
      (show PooledBuffer.ptr ⟨true, 1, 4096, 2400, false⟩ ≠ 0 by decide)
      (List.cons_ne_nil 1 [2]) (List.cons_ne_nil 3 [4]) (by decide) hroom
  refine ⟨blocks, total, htotal, hlaunch (), ?_⟩
  intro idx
  rw [hcover idx, htotal]
  rfl

end InferenceServer.Engine
