import HvisorRux.Rux.Fs.Ramfs

/-!
# The file system in memory is a tree

`AbstractFs` is a finite tree of directories and files, and its operations follow a path as a list
of moves. The nodes of a heap are linked to a tree: the names lead from the root to each node in one
way, and a directory has its parent as its parent. A heap and a tree that agree on the nodes at all
positions go on to agree, and give the same answers.
-/

namespace HvisorRux.Rux.Fs

open Common Function List Option OrdMap NameTree RamFileSystem

/-! ## The tree -/

/-- A node of the tree: its number and whether it is a directory. -/
structure Entry where
  id : ℕ
  dir : Bool
deriving DecidableEq, Repr

/-- The file system as a tree. -/
structure AbstractFs where
  tree : NameTree Name Entry Entry.dir
  /-- The number of the next node. -/
  next : ℕ

/-- The error with which a call reports a failed walk. -/
def VfsError.ofWalk : WalkError → VfsError
  | .notFound => .notFound
  | .notADirectory => .notADirectory

namespace AbstractFs

/-- The root directory. -/
def new : AbstractFs := ⟨.single ⟨0, true⟩ rfl, 1⟩

/-- The number of the node that a path leads to. -/
noncomputable def lookup (a : AbstractFs) (path : List Char) : Except VfsError ℕ :=
  match a.tree.walk [] (moves path) with
  | .error e => .error (.ofWalk e)
  | .ok p =>
    match a.tree.label p with
    | some entry => .ok entry.id
    | none => .error .notFound

/-- A new node, if the name is free. -/
noncomputable def createAt (a : AbstractFs) (p : List Name) (n : Name) :
    VfsNodeType → Except VfsError AbstractFs
  | ty =>
    if (a.tree.label (n :: p)).isSome then .error .alreadyExists
    else
      match ty with
      | .file => .ok ⟨a.tree.insert n p ⟨a.next, false⟩, a.next + 1⟩
      | .dir => .ok ⟨a.tree.insert n p ⟨a.next, true⟩, a.next + 1⟩
      | .other => .error .unsupported

/-- A node is created where the last move of the path leads, unless that is up or nowhere. -/
noncomputable def create (a : AbstractFs) (path : List Char) (ty : VfsNodeType) :
    Except VfsError AbstractFs :=
  match a.tree.approach [] (moves path) with
  | .error e => .error (.ofWalk e)
  | .ok (p, .down n) => a.createAt p n ty
  | .ok (_, _) => .ok a

open Classical in
/-- A file or an empty directory is removed. -/
noncomputable def removeAt (a : AbstractFs) (p : List Name) (n : Name) :
    Except VfsError AbstractFs :=
  if a.tree.label (n :: p) = none then .error .notFound
  else if ∃ m, (a.tree.label (m :: n :: p)).isSome then .error .directoryNotEmpty
  else .ok { a with tree := a.tree.erase n p }

/-- The node that the last move leads to is removed; a path that ends in no name is refused. -/
noncomputable def remove (a : AbstractFs) (path : List Char) : Except VfsError AbstractFs :=
  match a.tree.approach [] (moves path) with
  | .error e => .error (.ofWalk e)
  | .ok (p, .down n) => a.removeAt p n
  | .ok (_, _) => .error .invalidInput

/-- A call that fails changes nothing. -/
def commit (a : AbstractFs) : Except VfsError AbstractFs → AbstractFs × Except VfsError (Option ℕ)
  | .ok a' => (a', .ok none)
  | .error e => (a, .error e)

/-- The answer to a call, and the tree after it. -/
noncomputable def exec (a : AbstractFs) : FsCall → AbstractFs × Except VfsError (Option ℕ)
  | .lookup path => (a, (a.lookup path).map some)
  | .create path ty => a.commit (a.create path ty)
  | .remove path => a.commit (a.remove path)

/-- The answers to several calls. -/
noncomputable def execAll (a : AbstractFs) :
    List FsCall → AbstractFs × List (Except VfsError (Option ℕ))
  | [] => (a, [])
  | call :: calls =>
    let (a, outcome) := a.exec call
    let (a, outcomes) := execAll a calls
    (a, outcome :: outcomes)

/-- What a call does to the tree. -/
inductive Effect (a : AbstractFs) : FsCall → Except VfsError (Option ℕ) → AbstractFs → Prop
  | fail (call : FsCall) (e : VfsError) : Effect a call (.error e) a
  | found (path : List Char) {p : List Name} {entry : Entry}
      (hwalk : a.tree.walk [] (moves path) = .ok p) (hentry : a.tree.label p = some entry) :
      Effect a (.lookup path) (.ok (some entry.id)) a
  | exists_ (path : List Char) (ty : VfsNodeType) {p : List Name} {m : Move Name}
      (happroach : a.tree.approach [] (moves path) = .ok (p, m)) (hm : m = .stay ∨ m = .up) :
      Effect a (.create path ty) (.ok none) a
  | created (path : List Char) {ty : VfsNodeType} {p : List Name} {n : Name} {a' : AbstractFs}
      (happroach : a.tree.approach [] (moves path) = .ok (p, .down n))
      (hfree : a.tree.label (n :: p) = none) (hty : ty = .file ∨ ty = .dir)
      (hlabel : a'.tree.label = update a.tree.label (n :: p) (some ⟨a.next, decide (ty = .dir)⟩)) :
      Effect a (.create path ty) (.ok none) a'
  | removed (path : List Char) {p : List Name} {n : Name} {a' : AbstractFs}
      (happroach : a.tree.approach [] (moves path) = .ok (p, .down n))
      (hsome : (a.tree.label (n :: p)).isSome) (hempty : ∀ m, a.tree.label (m :: n :: p) = none)
      (hlabel : a'.tree.label = update a.tree.label (n :: p) none) :
      Effect a (.remove path) (.ok none) a'

theorem effect_lookup (a : AbstractFs) (path : List Char) :
    Effect a (.lookup path) ((a.lookup path).map some) a := by
  unfold lookup
  split
  · exact .fail _ _
  · next p hwalk =>
    split
    · next entry hentry => exact .found path hwalk hentry
    · exact .fail _ _

theorem effect_createAt {a : AbstractFs} {path : List Char} {p : List Name} {n : Name}
    (happroach : a.tree.approach [] (moves path) = .ok (p, .down n)) (ty : VfsNodeType) :
    Effect a (.create path ty) (a.commit (a.createAt p n ty)).2
      (a.commit (a.createAt p n ty)).1 := by
  unfold createAt
  split_ifs with hfree
  · exact .fail _ _
  rw [not_isSome_iff_eq_none] at hfree
  have hlabel : ∀ entry,
      (a.tree.insert n p entry).label = update a.tree.label (n :: p) (some entry) :=
    fun _ => label_insert (isDirAt_of_approach happroach) hfree
  cases ty with
  | file => exact .created path happroach hfree (.inl rfl) (hlabel _)
  | dir => exact .created path happroach hfree (.inr rfl) (hlabel _)
  | other => exact .fail _ _

theorem effect_removeAt {a : AbstractFs} {path : List Char} {p : List Name} {n : Name}
    (happroach : a.tree.approach [] (moves path) = .ok (p, .down n)) :
    Effect a (.remove path) (a.commit (a.removeAt p n)).2 (a.commit (a.removeAt p n)).1 := by
  unfold removeAt
  split_ifs with hnone hchildren
  · exact .fail _ _
  · exact .fail _ _
  · have hempty : ∀ m, a.tree.label (m :: n :: p) = none := fun m =>
      not_isSome_iff_eq_none.mp fun hm => hchildren ⟨m, hm⟩
    exact .removed path happroach (isSome_iff_ne_none.mpr hnone) hempty (label_erase hempty)

/-- Each call has one of the effects. -/
theorem exec_effect (a : AbstractFs) (call : FsCall) :
    Effect a call (a.exec call).2 (a.exec call).1 := by
  cases call with
  | lookup path => exact effect_lookup a path
  | create path ty =>
    rw [exec, create]
    split
    · exact .fail _ _
    · next p n happroach => exact effect_createAt happroach ty
    rename_i p m hdown happroach
    refine .exists_ path ty happroach ?_
    cases m with
    | stay => exact .inl rfl
    | up => exact .inr rfl
    | down n => exact absurd rfl (hdown n)
  | remove path =>
    rw [exec, remove]
    split
    · exact .fail _ _
    · next p n happroach => exact effect_removeAt happroach
    · exact .fail _ _

end AbstractFs

/-! ## Linked nodes -/

namespace Heap

/-- The child of a directory with this name. -/
def child (h : Heap) (i : ℕ) (n : Name) : Option ℕ :=
  match h.nodes i with
  | some (.dir d) => d.children.get? n
  | _ => none

/-- What the tree has for a node. -/
def entry (h : Heap) (i : ℕ) : Option Entry :=
  match h.nodes i with
  | some (.dir _) => some ⟨i, true⟩
  | some (.file _) => some ⟨i, false⟩
  | none => none

variable {h : Heap} {i : ℕ} {node : Node} {d : DirNode}

theorem nodes_alloc_setDir (hi : h.next ≠ i) :
    ((h.alloc node).setDir i d).nodes h.next = some node :=
  (update_of_ne hi ..).trans (update_self ..)

end Heap

/-- The nodes are linked to a tree. -/
structure Linked (h : Heap) (root : ℕ) : Prop where
  alive : ∀ p i, nodeAt h.child root p = some i → (h.nodes i).isSome
  inj : ∀ p q i, nodeAt h.child root p = some i → nodeAt h.child root q = some i → p = q
  top : ∀ d, h.nodes root = some (.dir d) → d.parent = none
  up : ∀ n p i d, nodeAt h.child root (n :: p) = some i → h.nodes i = some (.dir d) →
    d.parent = nodeAt h.child root p
  fresh : ∀ i, (h.nodes i).isSome → i < h.next

/-- The child `n` of the directory `i` at `q` becomes `x`. If `x` is a node, it is a new one. -/
structure Changes (h h' : Heap) (root : ℕ) (q : List Name) (i : ℕ) (n : Name) (x : Option ℕ) :
    Prop where
  self : ∃ d children, h.nodes i = some (.dir d) ∧ h'.nodes i = some (.dir { d with children }) ∧
    children.get? = update d.children.get? n x
  other : ∀ k, k ≠ i → (h.nodes k).isSome → h'.nodes k = h.nodes k
  at_ : nodeAt h.child root q = some i
  below : ∀ m, nodeAt h.child root (m :: n :: q) = none
  new : ∀ j ∈ x, h.nodes j = none ∧ (h'.nodes j).isSome ∧
    (∀ d, h'.nodes j = some (.dir d) → d.parent = some i) ∧ ∀ m, h'.child j m = none
  fresh : ∀ k, (h'.nodes k).isSome → k < h'.next

namespace Changes

variable {h h' : Heap} {root i : ℕ} {q : List Name} {n : Name} {x : Option ℕ}

section

variable (hc : Changes h h' root q i n x) {k : ℕ}

include hc

/-- The nodes at the other positions stay, and so do their kinds and parents. -/
theorem nodeAt_eq (hl : Linked h root) (p : List Name) :
    nodeAt h'.child root p = if p = n :: q then x else nodeAt h.child root p := by
  refine nodeAt_update hl.inj hc.at_ hc.below (fun j hj => (hc.new j hj).2.2.2) ?_ p
  intro p k hp _
  by_cases hk : k = i
  · subst hk
    obtain ⟨d, children, hd, hd', hget⟩ := hc.self
    funext m
    rw [if_pos rfl, Heap.child, hd']
    show children.get? m = update (fun n => h.child k n) n x m
    unfold Heap.child
    rw [hget, hd]
  · rw [if_neg hk]
    funext m
    rw [Heap.child, hc.other k hk (hl.alive p k hp), Heap.child]

/-- The kinds of the nodes stay. -/
theorem entry_eq (hk : (h.nodes k).isSome) : h'.entry k = h.entry k := by
  by_cases hki : k = i
  · subst hki
    obtain ⟨d, children, hd, hd', -⟩ := hc.self
    rw [Heap.entry, hd', Heap.entry, hd]
  · rw [Heap.entry, hc.other k hki hk, Heap.entry]

/-- The parents stay. -/
theorem parent_eq (hk : (h.nodes k).isSome) {d' : DirNode} (hd' : h'.nodes k = some (.dir d')) :
    ∃ d, h.nodes k = some (.dir d) ∧ d'.parent = d.parent := by
  by_cases hki : k = i
  · subst hki
    obtain ⟨d, children, hd, hd'', -⟩ := hc.self
    rw [hd''] at hd'
    cases hd'
    exact ⟨d, hd, rfl⟩
  · exact ⟨d', (hc.other k hki hk).symm.trans hd', rfl⟩

/-- No node is lost. -/
theorem isSome (hk : (h.nodes k).isSome) : (h'.nodes k).isSome := by
  by_cases hki : k = i
  · subst hki
    obtain ⟨d, children, -, hd', -⟩ := hc.self
    rw [hd']
    rfl
  · rwa [hc.other k hki hk]

/-- A changed heap is linked. -/
theorem linked (hl : Linked h root) : Linked h' root := by
  refine ⟨fun p k hp => ?_, fun p p' k hp hp' => ?_, fun d' hd' => ?_, fun m p k d' hp hd' => ?_,
    hc.fresh⟩
  · rw [hc.nodeAt_eq hl] at hp
    split_ifs at hp with heq
    · exact (hc.new k hp).2.1
    · exact hc.isSome (hl.alive p k hp)
  · rw [hc.nodeAt_eq hl] at hp hp'
    -- a node that is new has no other position
    have hnew : ∀ r, x = some k → nodeAt h.child root r ≠ some k := by
      intro r hx hr
      have halive := hl.alive r k hr
      rw [(hc.new k hx).1] at halive
      cases halive
    split_ifs at hp hp' with heq heq' heq'
    · rw [heq, heq']
    · exact absurd hp' (hnew p' hp)
    · exact absurd hp (hnew p hp')
    · exact hl.inj p p' k hp hp'
  · obtain ⟨d, hd, hparent⟩ := hc.parent_eq (hl.alive [] root rfl) hd'
    exact hparent.trans (hl.top d hd)
  · rw [hc.nodeAt_eq hl] at hp ⊢
    split_ifs at hp with heq
    · obtain ⟨-, rfl⟩ := List.cons.inj heq
      rw [if_neg (by simp), hc.at_]
      exact (hc.new k hp).2.2.1 d' hd'
    have hne : p ≠ n :: q := by
      rintro rfl
      rw [hc.below m] at hp
      cases hp
    rw [if_neg hne]
    obtain ⟨d, hd, hparent⟩ := hc.parent_eq (hl.alive _ k hp) hd'
    exact hparent.trans (hl.up m p k d hp hd)

end

section

variable (hl : Linked h root) (hq : nodeAt h.child root q = some i) (hd : h.nodes i = some (.dir d))

include hl hq hd

/-- A new node is added to a directory. -/
theorem add (hfree : d.children.get? n = none)
    (hnode : (∃ content, node = .file content) ∨ node = .dir ⟨some i, .empty⟩) :
    Changes h ((h.alloc node).setDir i { d with children := d.children.insert n h.next }) root q i n
      (some h.next) := by
  have hlt : i < h.next := hl.fresh i (by rw [hd]; rfl)
  have hunused : h.nodes h.next = none := by
    by_contra hsome
    exact lt_irrefl _ (hl.fresh _ (isSome_iff_ne_none.mpr hsome))
  have hnext : ((h.alloc node).setDir i
      { d with children := d.children.insert n h.next }).nodes h.next = some node :=
    Heap.nodes_alloc_setDir hlt.ne'
  have hother : ∀ k, k ≠ i → k ≠ h.next →
      ((h.alloc node).setDir i { d with children := d.children.insert n h.next }).nodes k =
        h.nodes k := fun k hki hkn =>
    (update_of_ne hki ..).trans (update_of_ne hkn ..)
  refine ⟨⟨d, _, hd, update_self .., ?_⟩, fun k hk hsome => ?_, hq, fun m => ?_,
    fun j hj => ?_, fun k hk => ?_⟩
  · funext m
    rw [get?_insert, update_apply]
    congr
  · refine hother k hk fun heq => ?_
    rw [heq, hunused] at hsome
    cases hsome
  · rw [nodeAt, nodeAt_cons hq, Heap.child, hd]
    show (d.children.get? n).bind _ = none
    rw [hfree]
    rfl
  · cases hj
    refine ⟨hunused, by rw [hnext]; rfl, fun d' hd' => ?_, fun m => ?_⟩
    · rw [hnext] at hd'
      obtain ⟨content, rfl⟩ | rfl := hnode
      · cases hd'
      · cases hd'
        rfl
    · rw [Heap.child, hnext]
      obtain ⟨content, rfl⟩ | rfl := hnode <;> rfl
  · show k < h.next + 1
    by_cases hki : k = i
    · omega
    · by_cases hkn : k = h.next
      · omega
      · rw [hother k hki hkn] at hk
        exact (hl.fresh k hk).trans (Nat.lt_succ_self _)

/-- A node with nothing below it is removed from its directory. -/
theorem drop (hbelow : ∀ m, nodeAt h.child root (m :: n :: q) = none) :
    Changes h (h.setDir i { d with children := d.children.erase n }) root q i n none := by
  refine ⟨⟨d, _, hd, update_self .., ?_⟩, fun k hk _ => update_of_ne hk .., hq,
    hbelow, fun j hj => (by cases hj), fun k hk => ?_⟩
  · funext m
    rw [get?_erase, update_apply]
    congr
  · by_cases hki : k = i
    · exact hki ▸ hl.fresh i (by rw [hd]; rfl)
    · have hsame : (h.setDir i { d with children := d.children.erase n }).nodes k = h.nodes k :=
        update_of_ne hki ..
      exact hl.fresh k (hsame ▸ hk)

end

end Changes

/-- The heap has the nodes of the tree. -/
structure Refines (fs : RamFileSystem) (a : AbstractFs) : Prop extends
    Linked fs.heap fs.root where
  label : ∀ p, a.tree.label p = (nodeAt fs.heap.child fs.root p).bind fs.heap.entry
  next_eq : a.next = fs.heap.next

namespace Refines

variable {fs : RamFileSystem} {a : AbstractFs} {p q : List Name} {i : ℕ} {d : DirNode} {name : Name}

/-- A directory of the heap is one of the tree. -/
theorem isDirAt (h : Refines fs a) (hp : nodeAt fs.heap.child fs.root p = some i) :
    a.tree.IsDirAt p ↔ ∃ d, fs.heap.nodes i = some (.dir d) := by
  unfold NameTree.IsDirAt
  rw [h.label p, hp, bind_some, Heap.entry]
  cases hi : fs.heap.nodes i with
  | none => simp
  | some node => cases node <;> simp

/-- The children of a directory. -/
theorem child_eq (h : fs.heap.nodes i = some (.dir d)) (n : Name) :
    fs.heap.child i n = d.children.get? n := by
  rw [Heap.child, h]

section

variable (h : Refines fs a)

include h

/-- Heap and tree have nodes at the same positions. -/
theorem label_isSome : (a.tree.label p).isSome ↔ (nodeAt fs.heap.child fs.root p).isSome := by
  rw [h.label p]
  cases hp : nodeAt fs.heap.child fs.root p with
  | none => rfl
  | some i =>
    have halive := h.alive p i hp
    rw [bind_some, Heap.entry]
    cases hi : fs.heap.nodes i with
    | none => rw [hi] at halive; cases halive
    | some node => cases node <;> simp

/-- A component leads from a directory to where the move leads in the tree. -/
theorem component (hp : nodeAt fs.heap.child fs.root p = some i)
    (hd : fs.heap.nodes i = some (.dir d)) (name : Name) :
    (∃ e, a.tree.step p (moveOf name) = .error e ∧ Heap.component i d name = .error (.ofWalk e)) ∨
      ∃ q j, a.tree.step p (moveOf name) = .ok q ∧ Heap.component i d name = .ok j ∧
        nodeAt fs.heap.child fs.root q = some j := by
  have hdir := (h.isDirAt hp).mpr ⟨d, hd⟩
  unfold moveOf Heap.component
  split_ifs with hstay hup
  · exact .inr ⟨p, i, step_stay hdir, rfl, hp⟩
  · cases p with
    | nil =>
      obtain rfl : fs.root = i := some.inj hp
      rw [h.top d hd]
      exact .inl ⟨.notFound, step_up_root, rfl⟩
    | cons n p =>
      rw [h.up n p i d hp hd]
      cases hparent : nodeAt fs.heap.child fs.root p with
      | none =>
        rw [nodeAt, hparent] at hp
        cases hp
      | some j => exact .inr ⟨p, j, step_up hdir, rfl, hparent⟩
  · have hlabel := h.label_isSome (p := name :: p)
    have hchild : nodeAt fs.heap.child fs.root (name :: p) = d.children.get? name :=
      (nodeAt_cons hp).trans (child_eq hd name)
    cases hget : d.children.get? name with
    | none =>
      rw [hchild, hget] at hlabel
      exact .inl ⟨.notFound, step_down_none hdir fun hsome => (by cases hlabel.mp hsome), rfl⟩
    | some j =>
      rw [hchild, hget] at hlabel
      exact .inr ⟨name :: p, j, step_down hdir (hlabel.mpr rfl), rfl, hchild.trans hget⟩

/-- A walk along a path fails as in the tree, or arrives in the same directory. -/
theorem alongPath {β : Type} (last : ℕ → DirNode → Name → Except VfsError β)
    (self : ℕ) (path : List Char) (hp : nodeAt fs.heap.child fs.root p = some self) :
    (∃ e, a.tree.approach p (moves path) = .error e ∧
        fs.heap.alongPath last self path = .error (.ofWalk e)) ∨
      ∃ q i d name, a.tree.approach p (moves path) = .ok (q, moveOf name) ∧
        fs.heap.alongPath last self path = last i d name ∧
        nodeAt fs.heap.child fs.root q = some i ∧ fs.heap.nodes i = some (.dir d) := by
  fun_induction fs.heap.alongPath last self path generalizing p with
  | case1 self path d hd name rest hsplit e hcomponent =>
    obtain ⟨k, hmoves⟩ := moves_splitPath hsplit
    have hdir := (h.isDirAt hp).mpr ⟨d, hd⟩
    rw [hmoves, approach_stays hdir k (cons_ne_nil _ _)]
    obtain ⟨m, ms, hrest⟩ := exists_cons_of_ne_nil (moves_ne_nil rest)
    rw [map_some, getD_some, hrest, NameTree.approach]
    obtain ⟨e', hstep, he⟩ | ⟨q, j, -, hj, -⟩ := h.component hp hd name
    · rw [hstep]
      obtain rfl := Except.error.inj (hcomponent.symm.trans he)
      exact .inl ⟨e', rfl, rfl⟩
    · cases hcomponent.symm.trans hj
  | case2 self path d hd name rest hsplit node hcomponent ih =>
    obtain ⟨k, hmoves⟩ := moves_splitPath hsplit
    have hdir := (h.isDirAt hp).mpr ⟨d, hd⟩
    rw [hmoves, approach_stays hdir k (cons_ne_nil _ _)]
    obtain ⟨m, ms, hrest⟩ := exists_cons_of_ne_nil (moves_ne_nil rest)
    rw [map_some, getD_some, hrest, NameTree.approach]
    obtain ⟨e', hstep, he⟩ | ⟨q, j, hstep, hj, hq⟩ := h.component hp hd name
    · cases hcomponent.symm.trans he
    · rw [hstep]
      obtain rfl := Except.ok.inj (hcomponent.symm.trans hj)
      have hrun := ih hq
      rwa [hrest] at hrun
  | case3 self path d hd name hsplit =>
    obtain ⟨k, hmoves⟩ := moves_splitPath hsplit
    have hdir := (h.isDirAt hp).mpr ⟨d, hd⟩
    rw [hmoves, approach_stays hdir k (cons_ne_nil _ _)]
    exact .inr ⟨p, self, d, name, if_pos hdir, rfl, hp, hd⟩
  | case4 self path hd =>
    have hdir : ¬ a.tree.IsDirAt p := fun hdir => by
      obtain ⟨d, hd'⟩ := (h.isDirAt hp).mp hdir
      exact hd d hd'
    obtain ⟨m, ms, hmoves⟩ := exists_cons_of_ne_nil (moves_ne_nil path)
    rw [hmoves, approach_of_not_dir hdir]
    exact .inl ⟨.notADirectory, rfl, rfl⟩

/-! ### Changes -/

/-- A change of the heap, and the same change of the tree. -/
theorem change {heap : Heap} {n : Name} {x : Option ℕ}
    (hc : Changes fs.heap heap fs.root q i n x) {tree : NameTree Name Entry Entry.dir}
    (htree : tree.label = update a.tree.label (n :: q) (x.bind heap.entry)) :
    Refines { fs with heap } ⟨tree, heap.next⟩ := by
  refine { hc.linked h.toLinked with label := fun p => ?_, next_eq := rfl }
  rw [hc.nodeAt_eq h.toLinked, htree]
  by_cases hp : p = n :: q
  · rw [hp, update_self, if_pos rfl]
  · rw [update_of_ne hp, if_neg hp, h.label p]
    cases hpk : nodeAt fs.heap.child fs.root p with
    | none => rfl
    | some k => exact (hc.entry_eq (h.alive p k hpk)).symm

/-- A new node. -/
theorem addNode (hq : nodeAt fs.heap.child fs.root q = some i)
    (hd : fs.heap.nodes i = some (.dir d)) (hfree : d.children.get? name = none) {dir : Bool}
    (hnode : node = .file [] ∧ dir = false ∨ node = .dir ⟨some i, .empty⟩ ∧ dir = true) :
    Refines { fs with
        heap := (fs.heap.alloc node).setDir i
          { d with children := d.children.insert name fs.heap.next } }
      ⟨a.tree.insert name q ⟨a.next, dir⟩, a.next + 1⟩ := by
  have hchild : nodeAt fs.heap.child fs.root (name :: q) = none :=
    (nodeAt_cons hq).trans ((child_eq hd name).trans hfree)
  rw [h.next_eq]
  refine h.change (Changes.add h.toLinked hq hd hfree
    (hnode.imp (fun hfile => ⟨[], hfile.1⟩) And.left)) ?_
  rw [label_insert ((h.isDirAt hq).mpr ⟨d, hd⟩) (by rw [h.label, hchild]; rfl)]
  refine congrArg _ ?_
  rw [bind_some, Heap.entry, Heap.nodes_alloc_setDir (h.fresh i (by rw [hd]; rfl)).ne']
  obtain ⟨rfl, rfl⟩ | ⟨rfl, rfl⟩ := hnode <;> rfl

/-- A node without children is removed from its directory. -/
theorem dropNode (hq : nodeAt fs.heap.child fs.root q = some i)
    (hd : fs.heap.nodes i = some (.dir d))
    (hbelow : ∀ m, nodeAt fs.heap.child fs.root (m :: name :: q) = none) :
    Refines { fs with
        heap := fs.heap.setDir i { d with children := d.children.erase name } }
      { a with tree := a.tree.erase name q } := by
  rw [h.next_eq]
  refine h.change (Changes.drop h.toLinked hq hd hbelow) (label_erase fun m => ?_)
  rw [h.label, hbelow m]
  rfl

end

/-! ### Calls -/

theorem moveOf_special (h : name = [] ∨ name = dot ∨ name = dotdot) :
    moveOf name = .stay ∨ moveOf name = .up := by
  obtain rfl | rfl | rfl := h
  · exact .inl rfl
  · exact .inl rfl
  · exact .inr rfl

theorem moveOf_down (h : ¬ (name = [] ∨ name = dot ∨ name = dotdot)) :
    moveOf name = .down name := by
  rw [not_or, not_or] at h
  rw [moveOf, if_neg (not_or.mpr ⟨h.1, h.2.1⟩), if_neg h.2.2]

theorem lookup (h : Refines fs a) (path : List Char) :
    fs.heap.lookup fs.root path = a.lookup path := by
  obtain ⟨m, ms, hmoves⟩ := exists_cons_of_ne_nil (moves_ne_nil path)
  unfold Heap.lookup AbstractFs.lookup
  rw [hmoves, walk_eq_approach, ← hmoves]
  obtain ⟨e, happroach, heq⟩ | ⟨q, i, d, name, happroach, heq, hq, hd⟩ :=
    h.alongPath Heap.component fs.root path (p := []) rfl
  · rw [happroach, heq]
  rw [happroach, heq]
  obtain ⟨e, hstep, hcomponent⟩ | ⟨r, j, hstep, hcomponent, hr⟩ := h.component hq hd name
  · simp only [hstep, hcomponent]
  simp only [hstep, hcomponent]
  have halive := h.alive r j hr
  rw [h.label r, hr, bind_some, Heap.entry]
  cases hj : fs.heap.nodes j with
  | none => rw [hj] at halive; cases halive
  | some node => cases node <;> rfl

/-- The outcomes of an operation on the heap and on the tree. -/
def Matches (fs : RamFileSystem) : Except VfsError Heap → Except VfsError AbstractFs → Prop
  | .error e, .error e' => e = e'
  | .ok heap, .ok a => Refines { fs with heap } a
  | _, _ => False

section

variable (h : Refines fs a)

include h

theorem createNode (hq : nodeAt fs.heap.child fs.root q = some i)
    (hd : fs.heap.nodes i = some (.dir d)) (name : Name) (ty : VfsNodeType) :
    Matches fs (fs.heap.createNode i d name ty) (a.createAt q name ty) := by
  have hlabel : (a.tree.label (name :: q)).isSome ↔ (d.children.get? name).isSome := by
    rw [h.label_isSome, nodeAt_cons hq, child_eq hd]
  unfold Heap.createNode AbstractFs.createAt
  by_cases hname : (d.children.get? name).isSome
  · rw [if_pos hname, if_pos (hlabel.mpr hname)]
    exact rfl
  rw [if_neg hname, if_neg fun hsome => hname (hlabel.mp hsome)]
  have hfree := not_isSome_iff_eq_none.mp hname
  cases ty with
  | file => exact h.addNode hq hd hfree (.inl ⟨rfl, rfl⟩)
  | dir => exact h.addNode hq hd hfree (.inr ⟨rfl, rfl⟩)
  | other => exact rfl

theorem create (path : List Char) (ty : VfsNodeType) :
    Matches fs (fs.heap.create fs.root path ty) (a.create path ty) := by
  unfold Heap.create AbstractFs.create
  obtain ⟨e, happroach, heq⟩ | ⟨q, i, d, name, happroach, heq, hq, hd⟩ := h.alongPath
    (fun i d name =>
      if name = [] ∨ name = dot ∨ name = dotdot then .ok fs.heap
      else fs.heap.createNode i d name ty) fs.root path (p := []) rfl
  · rw [happroach, heq]
    exact rfl
  rw [happroach, heq]
  by_cases hspecial : name = [] ∨ name = dot ∨ name = dotdot
  · rw [if_pos hspecial]
    obtain hmove | hmove := moveOf_special hspecial
    · rw [hmove]
      exact h
    · rw [hmove]
      exact h
  · rw [if_neg hspecial, moveOf_down hspecial]
    exact h.createNode hq hd name ty

theorem removeNode (hq : nodeAt fs.heap.child fs.root q = some i)
    (hd : fs.heap.nodes i = some (.dir d)) (name : Name) :
    Matches fs (fs.heap.removeNode i d name) (a.removeAt q name) := by
  have hchild : nodeAt fs.heap.child fs.root (name :: q) = d.children.get? name :=
    (nodeAt_cons hq).trans (child_eq hd name)
  unfold Heap.removeNode AbstractFs.removeAt
  cases hget : d.children.get? name with
  | none =>
    rw [if_pos (by rw [h.label, hchild, hget]; rfl)]
    exact rfl
  | some j =>
    rw [hget] at hchild
    have hsome : (a.tree.label (name :: q)).isSome := by
      rw [h.label_isSome, hchild]
      rfl
    have hbelow : ∀ m, nodeAt fs.heap.child fs.root (m :: name :: q) = fs.heap.child j m :=
      fun m => nodeAt_cons hchild
    have hnone : (∀ m, fs.heap.child j m = none) →
        ¬ ∃ m, (a.tree.label (m :: name :: q)).isSome := by
      rintro hleaf ⟨m, hm⟩
      rw [h.label_isSome, hbelow, hleaf m] at hm
      cases hm
    have hdrop : (∀ m, fs.heap.child j m = none) →
        Refines { fs with heap := fs.heap.setDir i { d with children := d.children.erase name } }
          { a with tree := a.tree.erase name q } :=
      fun hleaf => h.dropNode hq hd fun m => (hbelow m).trans (hleaf m)
    rw [if_neg (isSome_iff_ne_none.mp hsome)]
    dsimp only
    cases hj : fs.heap.nodes j with
    | none =>
      have halive := h.alive _ j hchild
      rw [hj] at halive
      cases halive
    | some node =>
      cases node with
      | file content =>
        have hleaf : ∀ m, fs.heap.child j m = none := fun m => by rw [Heap.child, hj]
        rw [if_neg (hnone hleaf)]
        exact hdrop hleaf
      | dir d' =>
        have hchildren : ∀ m, fs.heap.child j m = d'.children.get? m := fun m => child_eq hj m
        dsimp only
        by_cases hempty : d'.children.entries = []
        · have hleaf : ∀ m, fs.heap.child j m = none := fun m =>
            (hchildren m).trans (entries_eq_nil.mp hempty m)
          rw [if_neg (not_not.mpr hempty), if_neg (hnone hleaf)]
          exact hdrop hleaf
        obtain ⟨m, hm⟩ := not_forall.mp fun hall => hempty (entries_eq_nil.mpr hall)
        have hm' : (a.tree.label (m :: name :: q)).isSome := by
          rw [h.label_isSome, hbelow, hchildren]
          exact isSome_iff_ne_none.mpr hm
        rw [if_pos hempty, if_pos ⟨m, hm'⟩]
        exact rfl

theorem remove (path : List Char) : Matches fs (fs.heap.remove fs.root path) (a.remove path) := by
  unfold Heap.remove AbstractFs.remove
  obtain ⟨e, happroach, heq⟩ | ⟨q, i, d, name, happroach, heq, hq, hd⟩ := h.alongPath
    (fun i d name =>
      if name = [] ∨ name = dot ∨ name = dotdot then .error .invalidInput
      else fs.heap.removeNode i d name) fs.root path (p := []) rfl
  · rw [happroach, heq]
    exact rfl
  rw [happroach, heq]
  by_cases hspecial : name = [] ∨ name = dot ∨ name = dotdot
  · rw [if_pos hspecial]
    obtain hmove | hmove := moveOf_special hspecial
    · rw [hmove]
      exact rfl
    · rw [hmove]
      exact rfl
  · rw [if_neg hspecial, moveOf_down hspecial]
    exact h.removeNode hq hd name

theorem commit {x : Except VfsError Heap} {y : Except VfsError AbstractFs}
    (hmatch : Matches fs x y) :
    Refines (fs.commit x).1 (a.commit y).1 ∧ (fs.commit x).2 = (a.commit y).2 := by
  cases x <;> cases y
  · exact ⟨h, congrArg Except.error hmatch⟩
  · exact hmatch.elim
  · exact hmatch.elim
  · exact ⟨hmatch, rfl⟩

theorem exec (call : FsCall) :
    Refines (fs.exec call).1 (a.exec call).1 ∧ (fs.exec call).2 = (a.exec call).2 := by
  cases call with
  | lookup path => exact ⟨h, congrArg (Except.map some) (h.lookup path)⟩
  | create path ty => exact h.commit (h.create path ty)
  | remove path => exact h.commit (h.remove path)

theorem execAll (calls : List FsCall) :
    Refines (fs.execAll calls).1 (a.execAll calls).1 ∧
      (fs.execAll calls).2 = (a.execAll calls).2 := by
  induction calls generalizing fs a with
  | nil => exact ⟨h, rfl⟩
  | cons call calls ih =>
    obtain ⟨hnext, houtcome⟩ := h.exec call
    obtain ⟨hlast, houtcomes⟩ := ih hnext
    refine ⟨hlast, ?_⟩
    simp only [execAll, AbstractFs.execAll, houtcome, houtcomes]

end

/-- At the start there is the root directory. -/
theorem new : Refines .new .new := by
  have hroot : RamFileSystem.new.heap.nodes 0 = some (.dir ⟨none, .empty⟩) := rfl
  have hchild : ∀ n, RamFileSystem.new.heap.child 0 n = none := fun _ => rfl
  have hnode : ∀ p i, nodeAt RamFileSystem.new.heap.child RamFileSystem.new.root p = some i →
      p = [] ∧ i = 0 := by
    intro p
    induction p with
    | nil => exact fun i hi => ⟨rfl, (some.inj hi).symm⟩
    | cons n p ih =>
      intro i hi
      obtain ⟨j, hj, hji⟩ := bind_eq_some_iff.mp hi
      obtain ⟨-, rfl⟩ := ih j hj
      cases hji
  refine ⟨⟨fun p i hp => ?_, fun p q i hp hq => ?_, fun d hd => ?_, fun n p i d hp => ?_,
    fun i hi => ?_⟩, fun p => ?_, rfl⟩
  · obtain ⟨-, rfl⟩ := hnode p i hp
    rfl
  · rw [(hnode p i hp).1, (hnode q i hq).1]
  · cases hroot.symm.trans hd
    rfl
  · cases (hnode _ i hp).1
  · by_contra hlt
    have hne : i ≠ 0 := fun heq => hlt (heq ▸ Nat.one_pos)
    rw [show RamFileSystem.new.heap.nodes i = none from update_of_ne hne ..] at hi
    cases hi
  · cases p with
    | nil => rfl
    | cons n p =>
      cases hp : nodeAt RamFileSystem.new.heap.child RamFileSystem.new.root (n :: p) with
      | none => rfl
      | some i => cases (hnode _ i hp).1

end Refines

/-- **The file system in memory is a tree.** A sequence of calls has the outcomes that it has on a
tree, and the nodes are those of the tree. On the tree, a call that fails changes nothing, `lookup`
finds the node at the end of the path, `create` adds one node where there is none, and `remove`
takes one away that has nothing below it. -/
theorem ramfs_refines_tree (calls : List FsCall) :
    (new.execAll calls).2 = (AbstractFs.new.execAll calls).2 ∧
      (∀ p, (AbstractFs.new.execAll calls).1.tree.label p = (nodeAt (new.execAll calls).1.heap.child
          (new.execAll calls).1.root p).bind
            (new.execAll calls).1.heap.entry) ∧
      ∀ call, AbstractFs.Effect (AbstractFs.new.execAll calls).1 call
        ((AbstractFs.new.execAll calls).1.exec call).2
        ((AbstractFs.new.execAll calls).1.exec call).1 := by
  obtain ⟨hrefines, houtcomes⟩ := Refines.new.execAll calls
  exact ⟨houtcomes, hrefines.label, fun call => AbstractFs.exec_effect _ call⟩

/-- A directory, a file in it by a way around, the directory that can not be removed, and the file
that can be found. -/
example : (new.execAll
    [.create "/d".toList .dir, .create "d//./../d/f".toList .file, .remove "d".toList,
      .lookup "d/f".toList, .lookup "d/f/".toList]).2 =
    [.ok none, .ok none, .error .directoryNotEmpty, .ok (some 2), .error .notADirectory] := by
  decide +kernel

end HvisorRux.Rux.Fs
