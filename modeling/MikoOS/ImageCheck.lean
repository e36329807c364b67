import MikoOS.FloppyImage
import MikoOS.Library.Loop

/-!
# The check of a finished image

`build_image.check` follows the chain of every file through links it has no reason to trust. Its only
guard is the set of clusters seen so far, shared between the files; here it is the list of these
clusters in the order of the visits. A failed assertion, and an entry too short to unpack, end the
check. The number of iterations of one loop is bounded by a fuel argument.
-/

namespace MikoOS.Floppy

open ByteString

/-- The sector of a cluster. -/
def sectorOf (image : Bytes) (cluster : ℕ) : Bytes :=
  let start := dataStart + (cluster - 2) * sectorSize
  slice image start (start + sectorSize)

structure Walk where
  cluster : ℕ
  seen : List ℕ
  result : Bytes

/-- One test of the `while` condition; `false` is a failed assertion. -/
def walkStep (image fat : Bytes) (w : Walk) : Walk ⊕ (Bool × Walk) :=
  if w.cluster < 0xff8 then
    if 2 ≤ w.cluster ∧ w.cluster < clusterEnd ∧ w.cluster ∉ w.seen then
      .inl {
        cluster := fatEntry fat w.cluster
        seen := w.seen ++ [w.cluster]
        result := w.result ++ sectorOf image w.cluster }
    else .inr (false, w)
  else .inr (true, w)

/-- Whether the check went through, and the clusters it visited. -/
structure Verdict where
  passed : Bool
  seen : List ℕ

def checkFile (fuel : ℕ) (image fat : Bytes) (index : ℕ) (file : Bytes × Bytes) (seen : List ℕ) :
    Option Verdict := do
  let (name, expected) := file
  let entry := slice image (rootStart + index * 32) (rootStart + (index + 1) * 32)
  if slice entry 0 11 ≠ name ∨ entry.length < 32 then return ⟨false, seen⟩
  let cluster := fromLittle (slice entry 26 28)
  let size := fromLittle (slice entry 28 32)
  if size ≠ expected.length then return ⟨false, seen⟩
  let (ended, w) ← Loop.run (walkStep image fat) fuel ⟨cluster, seen, []⟩
  if ended = false then return ⟨false, w.seen⟩
  if w.result.take size ≠ expected then return ⟨false, w.seen⟩
  return ⟨w.result.length = (size + sectorSize - 1) / sectorSize * sectorSize, w.seen⟩

def checkFiles (fuel : ℕ) (image fat : Bytes) : ℕ → List (Bytes × Bytes) → List ℕ → Option Verdict
  | _, [], seen => some ⟨true, seen⟩
  | index, file :: files, seen => do
    let verdict ← checkFile fuel image fat index file seen
    if verdict.passed then checkFiles fuel image fat (index + 1) files verdict.seen
    else return verdict

def check (fuel : ℕ) (image : Bytes) (files : List (Bytes × Bytes)) : Option Verdict :=
  if image.length = imageSize ∧ slice image 510 512 = [0x55, 0xaa] then
    let fat := slice image sectorSize (sectorSize + fatSize)
    if fat = slice image (sectorSize + fatSize) (sectorSize + 2 * fatSize) then
      checkFiles fuel image fat 0 files []
    else some ⟨false, []⟩
  else some ⟨false, []⟩

/-- Following the links from `start` passes the given clusters and arrives at `stop`. -/
def Path (fat : Bytes) (start : ℕ) : List ℕ → ℕ → Prop
  | [], stop => start = stop
  | cluster :: clusters, stop => start = cluster ∧ Path fat (fatEntry fat cluster) clusters stop

/-- The clusters of a file: the link of the last one is an end mark. -/
def Chain (fat : Bytes) (start : ℕ) (clusters : List ℕ) : Prop :=
  ∃ stop, Path fat start clusters stop ∧ 0xff8 ≤ stop

/-- Clusters of the data area, none twice. -/
structure Visited (seen : List ℕ) : Prop where
  nodup : seen.Nodup
  inside : ∀ c ∈ seen, 2 ≤ c ∧ c < clusterEnd

variable {image fat : Bytes} {start stop : ℕ} {clusters seen : List ℕ} {w : Walk}

theorem Path.append (h : Path fat start clusters stop) :
    Path fat start (clusters ++ [stop]) (fatEntry fat stop) := by
  induction clusters generalizing start with
  | nil => exact ⟨h, rfl⟩
  | cons cluster clusters ih => exact ⟨h.1, ih h.2⟩

theorem visited_nil : Visited [] := ⟨List.nodup_nil, fun _ hc => absurd hc List.not_mem_nil⟩

theorem Visited.length_le (h : Visited seen) : seen.length ≤ 2847 := by
  have hsub : seen.toFinset ⊆ Finset.Ico 2 clusterEnd := by
    intro c hc
    exact Finset.mem_Ico.mpr (h.inside c (List.mem_toFinset.mp hc))
  have hcard := Finset.card_le_card hsub
  rwa [List.toFinset_card_of_nodup h.nodup, Nat.card_Ico] at hcard

theorem Visited.append {c : ℕ} (h : Visited seen) (hc : 2 ≤ c ∧ c < clusterEnd) (hnew : c ∉ seen) :
    Visited (seen ++ [c]) where
  nodup := by
    rw [List.nodup_append]
    refine ⟨h.nodup, List.nodup_singleton c, ?_⟩
    intro a ha b hb
    rw [List.mem_singleton.mp hb]
    intro heq
    exact hnew (heq ▸ ha)
  inside := by
    intro a ha
    rcases List.mem_append.mp ha with hold | hlast
    · exact h.inside a hold
    · rwa [List.mem_singleton.mp hlast]

/-- A walk from `start` that had seen `seen` before: its own clusters, and their sectors. -/
structure Walked (image fat : Bytes) (start : ℕ) (seen clusters : List ℕ) (w : Walk) : Prop where
  path : Path fat start clusters w.cluster
  seen : w.seen = seen ++ clusters
  result : w.result = clusters.flatMap (sectorOf image)
  visited : Visited w.seen

/-- What one test can do: go on to a new cluster of the data area, fail, or end at an end mark. -/
theorem walkStep_cases (image fat : Bytes) (w : Walk) :
    ((2 ≤ w.cluster ∧ w.cluster < clusterEnd ∧ w.cluster ∉ w.seen) ∧
      walkStep image fat w = .inl ⟨fatEntry fat w.cluster, w.seen ++ [w.cluster],
        w.result ++ sectorOf image w.cluster⟩) ∨
    walkStep image fat w = .inr (false, w) ∨
    (0xff8 ≤ w.cluster ∧ walkStep image fat w = .inr (true, w)) := by
  unfold walkStep
  by_cases hmark : w.cluster < 0xff8
  · rw [if_pos hmark]
    by_cases hnew : 2 ≤ w.cluster ∧ w.cluster < clusterEnd ∧ w.cluster ∉ w.seen
    · rw [if_pos hnew]
      exact .inl ⟨hnew, rfl⟩
    · rw [if_neg hnew]
      exact .inr (.inl rfl)
  · rw [if_neg hmark]
    exact .inr (.inr ⟨Nat.not_lt.mp hmark, rfl⟩)

theorem Walked.step (h : Walked image fat start seen clusters w) :
    (walkStep image fat w).elim
      (fun t => Walked image fat start seen (clusters ++ [w.cluster]) t ∧
        2847 - t.seen.length < 2847 - w.seen.length)
      fun r => r.2 = w ∧ (r.1 = true → 0xff8 ≤ w.cluster) := by
  obtain ⟨hnew, hstep⟩ | hstep | ⟨hmark, hstep⟩ := walkStep_cases image fat w
  · rw [hstep]
    have hvisited := h.visited.append ⟨hnew.1, hnew.2.1⟩ hnew.2.2
    have hlength := hvisited.length_le
    rw [List.length_append, List.length_singleton] at hlength
    refine ⟨{
      path := h.path.append
      seen := by
        change w.seen ++ [w.cluster] = _
        rw [h.seen, List.append_assoc]
      result := by
        change w.result ++ sectorOf image w.cluster = _
        rw [h.result, List.flatMap_append, List.flatMap_singleton]
      visited := hvisited }, ?_⟩
    change 2847 - (w.seen ++ [w.cluster]).length < _
    rw [List.length_append, List.length_singleton]
    omega
  · rw [hstep]
    exact ⟨rfl, fun h => absurd h Bool.false_ne_true⟩
  · rw [hstep]
    exact ⟨rfl, fun _ => hmark⟩

/-- The loop ends after at most one visit of every cluster, at an end mark or a failed assertion. -/
theorem walk_run (image fat : Bytes) (start : ℕ) {fuel : ℕ} (hfuel : 2848 ≤ fuel)
    (hseen : Visited seen) :
    ∃ r clusters, Loop.run (walkStep image fat) fuel ⟨start, seen, []⟩ = some r ∧
      Walked image fat start seen clusters r.2 ∧ (r.1 = true → 0xff8 ≤ r.2.cluster) := by
  have hstart : Walked image fat start seen [] ⟨start, seen, []⟩ :=
    ⟨rfl, (List.append_nil seen).symm, rfl, hseen⟩
  have hloop : ∃ r, Loop.run (walkStep image fat) fuel ⟨start, seen, []⟩ = some r ∧
      ∃ clusters, Walked image fat start seen clusters r.2 ∧ (r.1 = true → 0xff8 ≤ r.2.cluster) := by
    apply Loop.run_of_measure (fun w => ∃ clusters, Walked image fat start seen clusters w) _
      (fun w => 2847 - w.seen.length) _ ⟨[], hstart⟩
    · change 2847 - seen.length < fuel
      omega
    · intro w hw
      obtain ⟨clusters, hw⟩ := hw
      have hstep := hw.step
      cases hbody : walkStep image fat w with
      | inl t =>
        rw [hbody] at hstep
        exact ⟨⟨_, hstep.1⟩, hstep.2⟩
      | inr r =>
        rw [hbody] at hstep
        obtain ⟨rfl, hend⟩ := hstep
        exact ⟨clusters, hw, hend⟩
  obtain ⟨r, hr, clusters, hwalked, hend⟩ := hloop
  exact ⟨r, clusters, hr, hwalked, hend⟩

/-- A walk that ended without a failed assertion, from any set of clusters seen before. -/
theorem walk_ended {fuel : ℕ}
    (h : Loop.run (walkStep image fat) fuel ⟨start, seen, []⟩ = some (true, w)) :
    ∃ clusters, Path fat start clusters w.cluster ∧ w.seen = seen ++ clusters ∧
      (∀ c ∈ clusters, 2 ≤ c ∧ c < clusterEnd) ∧ 0xff8 ≤ w.cluster := by
  have hstart : ∃ clusters, Path fat start clusters start ∧ seen = seen ++ clusters ∧
      ∀ c ∈ clusters, 2 ≤ c ∧ c < clusterEnd :=
    ⟨[], rfl, (List.append_nil seen).symm, fun _ hc => absurd hc List.not_mem_nil⟩
  have hended := Loop.run_of_invariant
    (fun w : Walk => ∃ clusters, Path fat start clusters w.cluster ∧ w.seen = seen ++ clusters ∧
      ∀ c ∈ clusters, 2 ≤ c ∧ c < clusterEnd)
    (fun r : Bool × Walk => r.1 = true → ∃ clusters, Path fat start clusters r.2.cluster ∧
      r.2.seen = seen ++ clusters ∧ (∀ c ∈ clusters, 2 ≤ c ∧ c < clusterEnd) ∧ 0xff8 ≤ r.2.cluster)
    ?_ (s := ⟨start, seen, []⟩) hstart h
  · exact hended rfl
  · intro w hw
    obtain ⟨clusters, hpath, hseen, hinside⟩ := hw
    obtain ⟨hnew, hstep⟩ | hstep | ⟨hmark, hstep⟩ := walkStep_cases image fat w
    · rw [hstep]
      refine ⟨clusters ++ [w.cluster], hpath.append, ?_, ?_⟩
      · change w.seen ++ [w.cluster] = _
        rw [hseen, List.append_assoc]
      · intro c hc
        rcases List.mem_append.mp hc with hold | hlast
        · exact hinside c hold
        · rw [List.mem_singleton.mp hlast]
          exact ⟨hnew.1, hnew.2.1⟩
    · rw [hstep]
      exact fun h => absurd h Bool.false_ne_true
    · rw [hstep]
      exact fun _ => ⟨clusters, hpath, hseen, hinside, hmark⟩

/-- File `index` is on the image: its directory entry, its chain and the sectors of the chain. -/
structure Recorded (image fat : Bytes) (index : ℕ) (name content : Bytes) (clusters : List ℕ) :
    Prop where
  name : slice image (rootStart + index * 32) (rootStart + index * 32 + 11) = name
  size : fromLittle (slice image (rootStart + index * 32 + 28) (rootStart + index * 32 + 32)) =
    content.length
  chain : Chain fat (fromLittle (slice image (rootStart + index * 32 + 26)
    (rootStart + index * 32 + 28))) clusters
  length : clusters.length = (content.length + sectorSize - 1) / sectorSize
  content : (clusters.flatMap (sectorOf image)).take content.length = content

theorem length_sectors (himage : image.length = imageSize)
    (hclusters : ∀ c ∈ clusters, 2 ≤ c ∧ c < clusterEnd) :
    (clusters.flatMap (sectorOf image)).length = sectorSize * clusters.length := by
  induction clusters with
  | nil => rfl
  | cons c clusters ih =>
    obtain ⟨hlow, hhigh⟩ := hclusters c List.mem_cons_self
    have hrest := ih fun a ha => hclusters a (List.mem_cons_of_mem c ha)
    have hsector : (sectorOf image c).length = sectorSize := by
      rw [clusterEnd] at hhigh
      rw [sectorOf, length_slice_of_le, Nat.add_sub_cancel_left]
      rw [himage, dataStart, imageSize, sectorSize]
      omega
    rw [List.flatMap_cons, List.length_append, hsector, hrest, List.length_cons, Nat.mul_succ,
      Nat.add_comm]

theorem slice_entry (image : Bytes) (index : ℕ) {a b : ℕ} (hb : b ≤ 32) :
    slice (slice image (rootStart + index * 32) (rootStart + (index + 1) * 32)) a b =
      slice image (rootStart + index * 32 + a) (rootStart + index * 32 + b) := by
  apply slice_slice
  omega

/-- One file is checked with every sufficient bound; the clusters it visits are new. -/
theorem checkFile_outcome (fat : Bytes) {fuel : ℕ} (hfuel : 2848 ≤ fuel)
    (himage : image.length = imageSize) (hseen : Visited seen) (index : ℕ) (name content : Bytes) :
    ∃ v clusters, checkFile fuel image fat index (name, content) seen = some v ∧ Visited v.seen ∧
      v.seen = seen ++ clusters ∧
      (v.passed = true → Recorded image fat index name content clusters) := by
  unfold checkFile
  dsimp only
  rw [slice_entry image index (a := 0) (by decide), slice_entry image index (a := 26) (by decide),
    slice_entry image index (a := 28) (by decide), Nat.add_zero]
  by_cases hname : slice image (rootStart + index * 32) (rootStart + index * 32 + 11) ≠ name ∨
      (slice image (rootStart + index * 32) (rootStart + (index + 1) * 32)).length < 32
  · rw [if_pos hname]
    exact ⟨_, [], rfl, hseen, (List.append_nil _).symm, fun h => absurd h Bool.false_ne_true⟩
  rw [if_neg hname]
  by_cases hsize : fromLittle (slice image (rootStart + index * 32 + 28)
      (rootStart + index * 32 + 32)) ≠ content.length
  · rw [if_pos hsize]
    exact ⟨_, [], rfl, hseen, (List.append_nil _).symm, fun h => absurd h Bool.false_ne_true⟩
  rw [if_neg hsize]
  obtain ⟨⟨ended, w⟩, clusters, hrun, hwalked, hend⟩ := walk_run image fat
    (fromLittle (slice image (rootStart + index * 32 + 26) (rootStart + index * 32 + 28))) hfuel hseen
  rw [hrun]
  change ∃ v clusters, (if ended = false then _ else _) = some v ∧ _
  by_cases hended : ended = false
  · rw [if_pos hended]
    exact ⟨_, clusters, rfl, hwalked.visited, hwalked.seen, fun h => absurd h Bool.false_ne_true⟩
  rw [if_neg hended]
  by_cases hcontent : w.result.take (fromLittle (slice image (rootStart + index * 32 + 28)
      (rootStart + index * 32 + 32))) ≠ content
  · rw [if_pos hcontent]
    exact ⟨_, clusters, rfl, hwalked.visited, hwalked.seen, fun h => absurd h Bool.false_ne_true⟩
  rw [if_neg hcontent]
  refine ⟨_, clusters, rfl, hwalked.visited, hwalked.seen, fun hpassed => ?_⟩
  rw [ne_eq, not_not] at hsize hcontent
  rw [not_or, not_not] at hname
  have hmark := hend (Bool.eq_true_of_not_eq_false hended)
  have hinside : ∀ c ∈ clusters, 2 ≤ c ∧ c < clusterEnd := by
    intro c hc
    apply hwalked.visited.inside
    rw [hwalked.seen]
    exact List.mem_append_right _ hc
  have hlength := of_decide_eq_true hpassed
  dsimp only at hlength
  rw [hwalked.result, length_sectors himage hinside, hsize, Nat.mul_comm] at hlength
  exact {
    name := hname.1
    size := hsize
    chain := ⟨w.cluster, hwalked.path, hmark⟩
    length := Nat.eq_of_mul_eq_mul_right (by decide) hlength
    content := by
      rw [← hwalked.result, ← hsize]
      exact hcontent }

theorem checkFile_mono {fuel more : ℕ} (hle : fuel ≤ more) {index : ℕ} {file : Bytes × Bytes}
    {v : Verdict} (h : checkFile fuel image fat index file seen = some v) :
    checkFile more image fat index file seen = some v := by
  unfold checkFile at h ⊢
  dsimp only at h ⊢
  split_ifs at h ⊢ with hname hsize
  · exact h
  · exact h
  · cases hrun : Loop.run (walkStep image fat) fuel ⟨fromLittle (slice (slice image
      (rootStart + index * 32) (rootStart + (index + 1) * 32)) 26 28), seen, []⟩ with
    | none =>
      rw [hrun] at h
      simp at h
    | some r =>
      rw [Loop.run_mono hle hrun]
      rw [hrun] at h
      exact h

/-- The files from `index` on are on the image with the given chains. -/
def AllRecorded (image fat : Bytes) (index : ℕ) (files : List (Bytes × Bytes))
    (chains : List (List ℕ)) : Prop :=
  chains.length = files.length ∧ ∀ i name content clusters, files[i]? = some (name, content) →
    chains[i]? = some clusters → Recorded image fat (index + i) name content clusters

theorem AllRecorded.cons {index : ℕ} {name content : Bytes} {files : List (Bytes × Bytes)}
    {chains : List (List ℕ)} (hfirst : Recorded image fat index name content clusters)
    (hrest : AllRecorded image fat (index + 1) files chains) :
    AllRecorded image fat index ((name, content) :: files) (clusters :: chains) := by
  refine ⟨by rw [List.length_cons, List.length_cons, hrest.1], ?_⟩
  intro i other bytes others hfile hchain
  cases i with
  | zero =>
    rw [List.getElem?_cons_zero, Option.some.injEq] at hfile hchain
    obtain ⟨rfl, rfl⟩ := Prod.mk.inj hfile
    rw [← hchain]
    exact hfirst
  | succ i =>
    rw [List.getElem?_cons_succ] at hfile hchain
    have hlast := hrest.2 i other bytes others hfile hchain
    rwa [Nat.add_assoc, Nat.add_comm 1 i] at hlast

theorem checkFiles_outcome (fat : Bytes) {fuel : ℕ} (hfuel : 2848 ≤ fuel)
    (himage : image.length = imageSize) (hseen : Visited seen) (index : ℕ) (files : List (Bytes × Bytes)) :
    ∃ v, checkFiles fuel image fat index files seen = some v ∧ Visited v.seen ∧
      (v.passed = true → ∃ chains, v.seen = seen ++ chains.flatten ∧
        AllRecorded image fat index files chains) := by
  induction files generalizing index seen with
  | nil =>
    refine ⟨_, rfl, hseen, fun _ => ⟨[], (List.append_nil seen).symm, rfl, ?_⟩⟩
    intro i name content clusters hfile
    rw [List.getElem?_nil] at hfile
    cases hfile
  | cons file files ih =>
    obtain ⟨name, content⟩ := file
    obtain ⟨v, clusters, hcheck, hvisited, hsplit, hrecorded⟩ :=
      checkFile_outcome fat hfuel himage hseen index name content
    rw [checkFiles, hcheck, Option.bind_eq_bind, Option.bind_some]
    by_cases hpassed : v.passed = true
    · rw [if_pos hpassed]
      obtain ⟨u, hrun, hall, hrest⟩ := ih hvisited (index + 1)
      refine ⟨u, hrun, hall, fun hu => ?_⟩
      obtain ⟨chains, hchains, hfiles⟩ := hrest hu
      refine ⟨clusters :: chains, ?_, AllRecorded.cons (hrecorded hpassed) hfiles⟩
      rw [hchains, hsplit, List.flatten_cons, List.append_assoc]
    · rw [if_neg hpassed]
      exact ⟨v, rfl, hvisited, fun h => absurd h hpassed⟩

theorem checkFiles_mono {fuel more : ℕ} (hle : fuel ≤ more) {index : ℕ}
    {files : List (Bytes × Bytes)} {v : Verdict}
    (h : checkFiles fuel image fat index files seen = some v) :
    checkFiles more image fat index files seen = some v := by
  induction files generalizing index seen with
  | nil => exact h
  | cons file files ih =>
    rw [checkFiles, Option.bind_eq_bind, Option.bind_eq_some_iff] at h ⊢
    obtain ⟨u, hfile, hrest⟩ := h
    refine ⟨u, checkFile_mono hle hfile, ?_⟩
    by_cases hpassed : u.passed = true
    · rw [if_pos hpassed] at hrest ⊢
      exact ih hrest
    · rw [if_neg hpassed] at hrest ⊢
      exact hrest

/-- The check ends on every byte string, having visited no cluster twice; an image it accepts holds
two equal tables and every file under its name, with its size, in a chain of its own. -/
theorem check_sound (image : Bytes) (files : List (Bytes × Bytes)) :
    ∃ v, (∀ fuel ≥ 2848, check fuel image files = some v) ∧ v.seen.Nodup ∧
      (∀ c ∈ v.seen, 2 ≤ c ∧ c < clusterEnd) ∧
      (v.passed = true →
        slice image sectorSize (sectorSize + fatSize) =
          slice image (sectorSize + fatSize) (sectorSize + 2 * fatSize) ∧
        ∃ chains : List (List ℕ), chains.length = files.length ∧ chains.Pairwise List.Disjoint ∧
          ∀ i name content clusters, files[i]? = some (name, content) →
            chains[i]? = some clusters → clusters.Nodup ∧ (∀ c ∈ clusters, 2 ≤ c ∧ c < clusterEnd) ∧
              Recorded image (slice image sectorSize (sectorSize + fatSize)) i name content
                clusters) := by
  have hfailed : ∀ h : false = true, False := Bool.false_ne_true
  by_cases himage : image.length = imageSize ∧ slice image 510 512 = [0x55, 0xaa]
  · by_cases hcopies : slice image sectorSize (sectorSize + fatSize) =
        slice image (sectorSize + fatSize) (sectorSize + 2 * fatSize)
    · have hcheck : ∀ fuel, check fuel image files = checkFiles fuel image
          (slice image sectorSize (sectorSize + fatSize)) 0 files [] := by
        intro fuel
        rw [check, if_pos himage, if_pos hcopies]
      obtain ⟨v, hrun, hvisited, hpassed⟩ := checkFiles_outcome
        (slice image sectorSize (sectorSize + fatSize)) le_rfl himage.1 visited_nil 0 files
      refine ⟨v, fun fuel hfuel => ?_, hvisited.nodup, hvisited.inside, fun hv => ⟨hcopies, ?_⟩⟩
      · rw [hcheck]
        exact checkFiles_mono hfuel hrun
      · obtain ⟨chains, hsplit, hlength, hrecorded⟩ := hpassed hv
        rw [List.nil_append] at hsplit
        have hnodup := hvisited.nodup
        rw [hsplit, List.nodup_flatten] at hnodup
        refine ⟨chains, hlength, hnodup.2, fun i name content clusters hfile hchain => ?_⟩
        have hmem := List.mem_of_getElem? hchain
        refine ⟨hnodup.1 clusters hmem, fun c hc => ?_, ?_⟩
        · apply hvisited.inside
          rw [hsplit]
          exact List.mem_flatten_of_mem hmem hc
        · have hfiles := hrecorded i name content clusters hfile hchain
          rwa [Nat.zero_add] at hfiles
    · refine ⟨⟨false, []⟩, fun fuel _ => ?_, List.nodup_nil, fun _ hc => absurd hc List.not_mem_nil,
        fun h => (hfailed h).elim⟩
      rw [check, if_pos himage, if_neg hcopies]
  · refine ⟨⟨false, []⟩, fun fuel _ => ?_, List.nodup_nil, fun _ hc => absurd hc List.not_mem_nil,
      fun h => (hfailed h).elim⟩
    rw [check, if_neg himage]

end MikoOS.Floppy
