import HvisorRux.Common.Iterate
import HvisorRux.Rux.Fs.Root

/-!
# Paths in canonical form

An absolute path in canonical form is the list of its components, which are all proper names. `text`
writes it down, and `canonicalize` returns this text.
-/

namespace HvisorRux.Rux.Fs

open Common List Option

/-! ## Names and texts -/

/-- A component that names an entry of a directory. -/
@[mk_iff] structure Proper (c : Name) : Prop where
  ne_nil : c ≠ []
  ne_dot : c ≠ dot
  ne_dotdot : c ≠ dotdot
  no_slash : '/' ∉ c

instance (c : Name) : Decidable (Proper c) := decidable_of_iff' _ (proper_iff c)

/-- A name with more behind it is a name. -/
theorem Proper.append {e n : Name} (he : Proper e) (hn : n ≠ []) (hno : '/' ∉ n) :
    Proper (e ++ n) := by
  have hlength : 0 < e.length ∧ 0 < n.length :=
    ⟨length_pos_iff.mpr he.ne_nil, length_pos_iff.mpr hn⟩
  refine ⟨by simp [hn], fun heq => ?_, fun heq => he.ne_dot ?_, by simp [he.no_slash, hno]⟩
  · have hone := congrArg List.length heq
    rw [length_append, show dot.length = 1 from rfl] at hone
    omega
  · -- `..` in two parts is `.` twice
    have htake := congrArg (List.take 1) heq
    have htwo := congrArg List.length heq
    rw [length_append, show dotdot.length = 2 from rfl] at htwo
    rwa [take_append_of_le_length hlength.1, take_of_length_le (by omega)] at htake

/-- The text of an absolute path, except that of the root. -/
def text (cs : List Name) : List Char := cs.flatMap ('/' :: ·)

/-- The text of an absolute path. -/
def absoluteText (cs : List Name) : List Char := if cs = [] then ['/'] else text cs

/-- One component more, in canonical form; the last one is the first of the list. -/
def push (stack : List Name) (c : Name) : List Name :=
  if c = [] ∨ c = dot then stack
  else if c = dotdot then stack.tail
  else c :: stack

/-- The canonical form of an absolute path. -/
def canonicalNames (path : List Char) : List Name := ((components path).foldl push []).reverse

variable {c : Name} {cs ds ms : List Name}

theorem text_cons : text (c :: cs) = '/' :: (c ++ text cs) := rfl

theorem tail_text_cons : (text (c :: cs)).tail = c ++ text cs := rfl

theorem components_text_append {xs : List Char} (h : ∀ c ∈ cs, Proper c) :
    components (xs ++ text cs) = components xs ++ cs := by
  induction cs generalizing xs with
  | nil => rw [text, flatMap_nil, append_nil, append_nil]
  | cons c cs ih =>
    obtain ⟨hc, hcs⟩ := forall_mem_cons.mp h
    rw [text_cons, components_append, ih hcs, components_single hc.no_slash]
    rfl

theorem components_text (h : ∀ c ∈ cs, Proper c) : components (text cs) = [] :: cs := by
  have hempty : components ([] ++ text cs) = components [] ++ cs := components_text_append h
  exact hempty

theorem components_tail_text (hne : cs ≠ []) (h : ∀ c ∈ cs, Proper c) :
    components (text cs).tail = cs := by
  obtain ⟨c, cs, rfl⟩ := exists_cons_of_ne_nil hne
  obtain ⟨hc, hcs⟩ := forall_mem_cons.mp h
  rw [tail_text_cons, components_text_append hcs, components_single hc.no_slash]
  rfl

theorem push_proper (h : Proper c) (stack : List Name) : push stack c = c :: stack := by
  rw [push, if_neg (not_or.mpr ⟨h.ne_nil, h.ne_dot⟩), if_neg h.ne_dotdot]

theorem foldl_push (h : ∀ c ∈ cs, Proper c) (stack : List Name) :
    cs.foldl push stack = cs.reverse ++ stack := by
  induction cs generalizing stack with
  | nil => rfl
  | cons c cs ih =>
    obtain ⟨hc, hcs⟩ := forall_mem_cons.mp h
    rw [foldl_cons, push_proper hc, ih hcs, reverse_cons, append_assoc]
    rfl

theorem canonicalNames_text (h : ∀ c ∈ cs, Proper c) : canonicalNames (text cs) = cs := by
  rw [canonicalNames, components_text h, foldl_cons, foldl_push h]
  simp [push]

/-! ### Slashes at the ends -/

theorem head?_tail_text (h : ∀ c ∈ cs, Proper c) : (text cs).tail.head? ≠ some '/' := by
  cases cs with
  | nil => exact fun heq => by cases heq
  | cons c cs =>
    obtain ⟨hc, -⟩ := forall_mem_cons.mp h
    rw [tail_text_cons, head?_append_of_ne_nil _ hc.ne_nil]
    exact fun heq => hc.no_slash (mem_of_head? heq)

/-! ## Canonical form -/

/-- The buffer of `canonicalize` has the components of the stack. It may keep the first slash when
they are all gone. -/
def Buffer (buf : List Char) (stack : List Name) : Prop :=
  (∀ c ∈ stack, Proper c) ∧ (buf = (text stack.reverse).reverse ∨ stack = [] ∧ buf = ['/'])

variable {buf path : List Char} {stack parts : List Name}

theorem reverse_text_cons (stack : List Name) :
    (text (c :: stack).reverse).reverse = c.reverse ++ '/' :: (text stack.reverse).reverse := by
  simp [text]

theorem popComponent_append {name rest : List Char} (h : '/' ∉ name) :
    popComponent (name ++ '/' :: rest) = if rest = [] then ['/'] else rest := by
  induction name with
  | nil =>
    cases rest with
    | nil => rfl
    | cons c rest => rfl
  | cons a name ih =>
    have ha : a ≠ '/' := fun heq => h (heq ▸ mem_cons_self)
    have hname : '/' ∉ name := fun hmem => h (mem_cons_of_mem _ hmem)
    rw [← ih hname, cons_append, popComponent]
    · exact if_neg ha
    · exact fun heq _ => ha heq

theorem text_reverse_ne_nil (stack : List Name) : (text (c :: stack).reverse).reverse ≠ [] := by
  rw [reverse_text_cons]
  simp

/-- `..` in the buffer and on the stack. -/
theorem Buffer.pop (h : Buffer buf stack) : Buffer (popComponent buf) stack.tail := by
  obtain ⟨hproper, rfl | ⟨rfl, rfl⟩⟩ := h
  · cases stack with
    | nil => exact ⟨hproper, .inl rfl⟩
    | cons n stack =>
      obtain ⟨hn, hstack⟩ := forall_mem_cons.mp hproper
      refine ⟨hstack, ?_⟩
      have hslash : '/' ∉ n.reverse := fun hmem => hn.no_slash (mem_reverse.mp hmem)
      rw [reverse_text_cons, popComponent_append hslash]
      cases stack with
      | nil => exact .inr ⟨rfl, rfl⟩
      | cons m stack => exact .inl (if_neg (text_reverse_ne_nil stack))
  · exact ⟨hproper, .inr ⟨rfl, rfl⟩⟩

/-- The name ends in a character of several bytes. -/
def wide (c : Name) : Bool := c.getLast?.any (·.utf8Size ≠ 1)

/-- `push`, except that the buffer is cut inside its last character when a name follows a wide
one. -/
def push? (stack : List Name) (c : Name) : Option (List Name) :=
  if Proper c ∧ stack.head?.any wide then none else some (push stack c)

/-- One part of a path, in the buffer and on the stack. -/
theorem Buffer.part (h : Buffer buf stack) (hc : '/' ∉ c) :
    Option.Rel Buffer (canonicalizePart true buf c) (push? stack c) := by
  unfold canonicalizePart push? push
  by_cases hstay : c = [] ∨ c = dot
  · rw [if_pos hstay, if_pos hstay, if_neg fun hp => hstay.elim hp.1.ne_nil hp.1.ne_dot]
    exact .some h
  rw [if_neg hstay, if_neg hstay]
  by_cases hup : c = dotdot
  · rw [if_pos hup, if_pos hup, if_neg fun hp => hp.1.ne_dotdot hup]
    exact .some h.pop
  rw [if_neg hup, if_neg hup]
  rw [not_or] at hstay
  have hc : Proper c := ⟨hstay.1, hstay.2, hup, hc⟩
  have hpush : Buffer (c.reverse ++ '/' :: (text stack.reverse).reverse) (c :: stack) :=
    ⟨forall_mem_cons.mpr ⟨hc, h.1⟩, .inl (reverse_text_cons stack).symm⟩
  have hnil : ¬(Proper c ∧ ([] : List Name).head?.any wide = true) := fun h => (by cases h.2)
  obtain ⟨hproper, rfl | ⟨rfl, rfl⟩⟩ := h
  · cases stack with
    | nil =>
      rw [if_neg hnil]
      exact .some hpush
    | cons n stack =>
      -- the buffer ends in the last character of a name
      have hn := hproper n mem_cons_self
      obtain ⟨a, l, hal⟩ := exists_cons_of_ne_nil (reverse_ne_nil_iff.mpr hn.ne_nil)
      have hlast : n.getLast? = some a := by rw [← head?_reverse, hal, head?_cons]
      have ha : a ≠ '/' := fun heq => hn.no_slash (mem_of_getLast? (heq ▸ hlast))
      have hbuf : (text (n :: stack).reverse).reverse =
          a :: (l ++ '/' :: (text stack.reverse).reverse) := by
        rw [reverse_text_cons, hal]
        rfl
      rw [hbuf] at hpush ⊢
      simp only [head?_cons, any_some, wide, hlast, decide_eq_true_eq, hc, true_and, if_neg ha]
      split_ifs
      · exact .none
      · exact .some hpush
  · rw [if_neg hnil]
    exact .some hpush

/-- The text of the stack that a buffer has. -/
theorem Buffer.text_eq (h : Buffer buf stack) :
    (if buf.isEmpty then ['/'] else buf.reverse) = absoluteText stack.reverse := by
  unfold absoluteText
  obtain ⟨-, rfl | ⟨rfl, rfl⟩⟩ := h
  · cases stack with
    | nil => rfl
    | cons c stack =>
      have hne := text_reverse_ne_nil (c := c) stack
      rw [if_neg fun hempty => hne (List.isEmpty_iff.mp hempty), if_neg (by simp), reverse_reverse]
  · rfl

theorem canonicalize_absolute (hpath : path.head? = some '/') :
    canonicalize path =
      ((components path).foldlM push? []).map fun stack => absoluteText stack.reverse := by
  have hbuffer : Buffer [] [] := ⟨fun c hc => absurd hc not_mem_nil, .inl rfl⟩
  have hparts : Option.Rel Buffer ((components path).foldlM (canonicalizePart true) [])
      ((components path).foldlM push? []) :=
    foldlM_rel (fun _ _ hb _ hc => hb.part (slash_notMem_components hc)) hbuffer
  unfold canonicalize
  simp only [hpath, decide_true, Bool.true_and]
  exact bind_eq_map_of_rel hparts fun _ _ h => h.text_eq

theorem mem_push {d : Name} (h : d ∈ push stack c) :
    d ∈ stack ∨ d = c ∧ c ≠ [] ∧ c ≠ dot ∧ c ≠ dotdot := by
  unfold push at h
  split_ifs at h with hstay hup
  · exact .inl h
  · exact .inl (mem_of_mem_tail h)
  · rw [not_or] at hstay
    exact (mem_cons.mp h).symm.imp_right fun h => ⟨h, hstay.1, hstay.2, hup⟩

theorem mem_foldl_push {d : Name} (h : d ∈ parts.foldl push stack) :
    d ∈ stack ∨ d ∈ parts ∧ d ≠ [] ∧ d ≠ dot ∧ d ≠ dotdot := by
  induction parts generalizing stack with
  | nil => exact .inl h
  | cons c parts ih =>
    obtain h | ⟨hd, h⟩ := ih h
    · obtain h | ⟨rfl, h⟩ := mem_push h
      · exact .inl h
      · exact .inr ⟨mem_cons_self, h⟩
    · exact .inr ⟨mem_cons_of_mem _ hd, h⟩

theorem mem_canonicalNames (h : c ∈ canonicalNames path) :
    c ∈ components path ∧ c ≠ [] ∧ c ≠ dot ∧ c ≠ dotdot :=
  (mem_foldl_push (mem_reverse.mp h)).resolve_left not_mem_nil

/-- The components in canonical form are proper. -/
theorem proper_canonicalNames (path : List Char) : ∀ c ∈ canonicalNames path, Proper c := by
  intro c hc
  obtain ⟨hmem, hne, hdot, hdotdot⟩ := mem_canonicalNames hc
  exact ⟨hne, hdot, hdotdot, slash_notMem_components hmem⟩

/-! ## Relative paths -/

theorem popComponent_concat (h : buf.getLast? ≠ some '/') :
    popComponent (buf ++ ['/']) = popComponent buf ++ ['/'] := by
  induction buf with
  | nil => rfl
  | cons a buf ih =>
    cases buf with
    | nil =>
      have ha : a ≠ '/' := fun heq => h (heq ▸ rfl)
      simp [popComponent, ha]
    | cons b buf =>
      simp only [cons_append, popComponent] at ih ⊢
      split_ifs
      · rfl
      · exact ih h

/-- A relative path has the same buffer without the first slash. -/
theorem Buffer.tail_eq (h : Buffer (buf ++ ['/']) stack) :
    buf.reverse = (text stack.reverse).tail := by
  obtain ⟨-, hbuf | ⟨rfl, hbuf⟩⟩ := h
  · have hreverse := congrArg (fun l => l.reverse.tail) hbuf
    simpa using hreverse
  · rw [append_left_eq_self.mp hbuf]
    rfl

theorem Buffer.part_relative (h : Buffer (buf ++ ['/']) stack)
    (c : Name) : canonicalizePart true (buf ++ ['/']) c =
      (canonicalizePart false buf c).map (· ++ ['/']) := by
  have hlast : buf.getLast? ≠ some '/' := by
    rw [← head?_reverse, h.tail_eq]
    exact head?_tail_text fun c hc => h.1 c (mem_reverse.mp hc)
  unfold canonicalizePart
  by_cases hstay : c = [] ∨ c = dot
  · rw [if_pos hstay, if_pos hstay]
    rfl
  rw [if_neg hstay, if_neg hstay]
  by_cases hup : c = dotdot
  · rw [if_pos hup, if_pos hup]
    exact congrArg some (popComponent_concat hlast)
  rw [if_neg hup, if_neg hup]
  cases buf with
  | nil => simp [show '/'.utf8Size = 1 from rfl]
  | cons a buf =>
    dsimp only [cons_append]
    split_ifs <;> simp

/-- One part of a relative path, in the buffer and on the stack. -/
theorem Buffer.rel_part_relative (h : Buffer (buf ++ ['/']) stack) (hc : '/' ∉ c) :
    Option.Rel (fun buf stack => Buffer (buf ++ ['/']) stack) (canonicalizePart false buf c)
      (push? stack c) := by
  have hpart := h.part hc
  rw [h.part_relative] at hpart
  generalize canonicalizePart false buf c = buf₁, push? stack c = stack₁ at hpart
  cases buf₁ with
  | none =>
    cases hpart
    exact .none
  | some buf₁ =>
    cases hpart with
    | some h₁ => exact .some h₁

/-- The text of a path in canonical form, with a slash in front if `isAbsolute`. -/
def canonicalText (isAbsolute : Bool) (cs : List Name) : List Char :=
  if isAbsolute then absoluteText cs else (text cs).tail

theorem canonicalize_eq_map (path : List Char) :
    canonicalize path = ((components path).foldlM push? []).map fun stack =>
      canonicalText (path.head? = some '/') stack.reverse := by
  by_cases hpath : path.head? = some '/'
  · rw [canonicalize_absolute hpath]
    simp only [hpath, canonicalText, decide_true, if_true]
  have hbuffer : Buffer ([] ++ ['/']) [] := ⟨fun c hc => absurd hc not_mem_nil, .inr ⟨rfl, rfl⟩⟩
  have hparts : Option.Rel (fun b stack => Buffer (b ++ ['/']) stack)
      ((components path).foldlM (canonicalizePart false) [])
      ((components path).foldlM push? []) :=
    foldlM_rel (fun _ _ hb _ hc => hb.rel_part_relative (slash_notMem_components hc)) hbuffer
  unfold canonicalize
  simp only [hpath, canonicalText, decide_false, Bool.false_and]
  exact bind_eq_map_of_rel hparts fun _ _ h => h.tail_eq

/-! ## Wide names -/

/-- No name comes onto the stack behind one that ends in a character of several bytes. -/
def NarrowTops (stack parts : List Name) : Prop :=
  ∀ pre c post, parts = pre ++ c :: post → Proper c →
    (pre.foldl push stack).head?.any wide = false

theorem NarrowTops.nil (stack : List Name) : NarrowTops stack [] := by
  rintro (_ | _) c post heq <;> cases heq

theorem narrowTops_cons : NarrowTops stack (c :: parts) ↔
    (Proper c → stack.head?.any wide = false) ∧ NarrowTops (push stack c) parts := by
  constructor
  · intro h
    exact ⟨h [] c parts rfl, fun pre d post heq => h (c :: pre) d post (by rw [heq]; rfl)⟩
  · rintro ⟨hc, hparts⟩ (_ | ⟨d, pre⟩) e post heq
    · cases heq
      exact hc
    · cases heq
      exact hparts pre e post rfl

/-- `canonicalize` does not panic iff there are no such names. -/
theorem foldlM_push?_eq_some {stack' : List Name} : parts.foldlM push? stack = some stack' ↔
    NarrowTops stack parts ∧ parts.foldl push stack = stack' := by
  induction parts generalizing stack with
  | nil => simp [NarrowTops.nil]
  | cons c parts ih =>
    rw [foldlM_cons, narrowTops_cons, foldl_cons, and_assoc, ← ih, push?]
    split_ifs with hwide
    · refine iff_of_false (by simp) fun h => ?_
      rw [h.1 hwide.1] at hwide
      cases hwide.2
    · refine ⟨fun h => ⟨fun hc => ?_, h⟩, And.right⟩
      exact Bool.eq_false_of_not_eq_true fun htop => hwide ⟨hc, htop⟩

theorem canonicalize_eq_some {r : List Char} : canonicalize path = some r ↔
    NarrowTops [] (components path) ∧
      r = canonicalText (path.head? = some '/') (canonicalNames path) := by
  rw [canonicalize_eq_map, map_eq_some_iff]
  simp only [foldlM_push?_eq_some, canonicalNames]
  grind

/-- All names but the last one end in characters of one byte. -/
def NarrowBelow (stack : List Name) : Prop := ∀ c ∈ stack.tail, wide c = false

theorem NarrowBelow.foldl_push (h : NarrowBelow stack) (hparts : NarrowTops stack parts)
    (hslash : ∀ c ∈ parts, '/' ∉ c) : NarrowBelow (parts.foldl push stack) := by
  induction parts generalizing stack with
  | nil => exact h
  | cons c parts ih =>
    obtain ⟨hc, hparts⟩ := narrowTops_cons.mp hparts
    obtain ⟨hno, hslash⟩ := forall_mem_cons.mp hslash
    refine ih ?_ hparts hslash
    unfold push
    split_ifs with hstay hup
    · exact h
    · exact fun d hd => h d (mem_of_mem_tail hd)
    · rw [not_or] at hstay
      cases stack with
      | nil => exact fun d hd => absurd hd not_mem_nil
      | cons e stack => exact forall_mem_cons.mpr ⟨hc ⟨hstay.1, hstay.2, hup, hno⟩, h⟩

theorem NarrowBelow.narrowTops (h : NarrowBelow stack) (hproper : ∀ c ∈ stack, Proper c) :
    NarrowTops [] stack.reverse := by
  suffices hfold : stack.reverse.foldlM push? [] = some stack from
    (foldlM_push?_eq_some.mp hfold).1
  induction stack with
  | nil => rfl
  | cons c stack ih =>
    obtain ⟨hc, hproper⟩ := forall_mem_cons.mp hproper
    have hpush : push? stack c = some (c :: stack) := by
      refine (if_neg fun hwide => ?_).trans (congrArg some (push_proper hc stack))
      cases stack with
      | nil => cases hwide.2
      | cons d stack => exact absurd (h d mem_cons_self) (ne_false_of_eq_true hwide.2)
    rw [reverse_cons, foldlM_append, ih (fun d hd => h d (mem_of_mem_tail hd)) hproper]
    exact (bind_some ..).trans (foldlM_cons.trans (congrArg (· >>= _) hpush))

theorem canonicalize_canonicalText (isAbsolute : Bool) (hproper : ∀ c ∈ cs, Proper c)
    (htops : NarrowTops [] cs) :
    canonicalize (canonicalText isAbsolute cs) = some (canonicalText isAbsolute cs) := by
  cases cs with
  | nil => cases isAbsolute <;> rfl
  | cons c cs =>
    rw [canonicalize_eq_some]
    cases isAbsolute with
    | true =>
      have htext : canonicalText true (c :: cs) = text (c :: cs) := rfl
      rw [htext, components_text hproper, canonicalNames_text hproper]
      exact ⟨narrowTops_cons.mpr ⟨fun h => rfl, htops⟩, rfl⟩
    | false =>
      have htext : canonicalText false (c :: cs) = (text (c :: cs)).tail := rfl
      have hcomponents := components_tail_text (cons_ne_nil c cs) hproper
      rw [htext, canonicalNames, hcomponents, foldl_push hproper, append_nil, reverse_reverse,
        decide_eq_false (head?_tail_text hproper)]
      exact ⟨htops, rfl⟩

/-- **Normalising a path.** A path comes out as the stack of its components with slashes between
them, and with one in front if the path has one, and the result comes out as it is, iff no name
comes onto the stack behind one that ends in a character of several bytes. -/
theorem canonicalize_stack_iff {r : List Char}
    (hr : r = canonicalText (path.head? = some '/') (canonicalNames path)) :
    (canonicalize path = some r ∧ canonicalize r = some r ∧
      ∀ c ∈ canonicalNames path, Proper c) ↔ NarrowTops [] (components path) := by
  have hproper := proper_canonicalNames path
  refine ⟨fun h => (canonicalize_eq_some.mp h.1).1, fun htops =>
    ⟨canonicalize_eq_some.mpr ⟨htops, hr⟩, ?_, hproper⟩⟩
  have hbelow : NarrowTops [] (canonicalNames path) :=
    ((show NarrowBelow [] from by simp [NarrowBelow]).foldl_push htops
      fun c hc => slash_notMem_components hc).narrowTops
        fun c hc => hproper c (mem_reverse.mpr hc)
  exact hr ▸ canonicalize_canonicalText _ hproper hbelow

/-- A hidden file in the directory above, and one in a directory that is left. -/
theorem canonicalize_stack_iff_sample :
    canonicalize "a/../.b//é".toList = some ".b/é".toList := by
  have htops : (components "a/../.b//é".toList).foldlM push? [] =
      some ["é".toList, ".b".toList] := by decide
  exact ((canonicalize_stack_iff rfl).mpr (foldlM_push?_eq_some.mp htops).1).1

/-- A name behind one that ends in a character of two bytes. -/
theorem canonicalize_panics : canonicalize "/é/a".toList = none := by
  decide

/-! ## Paths of system calls -/

/-- The text before the last slash. -/
def beforeLastSlash (path : List Char) : Option (List Char) :=
  match path.reverse.dropWhile (· ≠ '/') with
  | [] => none
  | _ :: rest => some rest.reverse

/-- `char_ptr_to_absolute_path` of a pointer to a text in UTF-8. -/
def FsState.charPtrToAbsolutePath (s : FsState) : List Char → List Char
  | '.' :: '.' :: stripped =>
    (match beforeLastSlash s.currentDirPath with
      | some cwd => (beforeLastSlash cwd).getD cwd
      | none => s.currentDirPath) ++ stripped
  | '.' :: stripped => s.currentDirPath ++ stripped
  | path => path

/-- The path that a system call is given and the one that it makes of it are the same. -/
def FsState.SamePath (s : FsState) (path : List Char) : Prop :=
  ∃ r, s.absolutePath (s.charPtrToAbsolutePath path) = some r ∧ s.absolutePath path = some r

theorem beforeLastSlash_append (xs : List Char) (h : '/' ∉ c) :
    beforeLastSlash (xs ++ '/' :: c) = some xs := by
  have hdrop : (xs ++ '/' :: c).reverse.dropWhile (· ≠ '/') = '/' :: xs.reverse := by
    rw [reverse_append, reverse_cons, append_assoc, dropWhile_append_of_pos]
    · rfl
    · exact fun a ha => decide_eq_true fun heq => h (heq ▸ mem_reverse.mp ha)
  rw [beforeLastSlash, hdrop]
  exact congrArg some (reverse_reverse xs)

theorem text_concat (ds : List Name) (d : Name) : text (ds ++ [d]) = text ds ++ '/' :: d := by
  simp [text]

/-! ### What a path leaves

The names that a path adds to a stack, and how many names of the stack it takes off. -/

def climb (r : List Name × ℕ) (c : Name) : List Name × ℕ :=
  if c = [] ∨ c = dot then r
  else if c = dotdot then if r.1 = [] then ([], r.2 + 1) else (r.1.tail, r.2)
  else (c :: r.1, r.2)

/-- How many directories above its start the path leads to. -/
def climbed (parts : List Name) : ℕ := (parts.foldl climb ([], 0)).2

theorem push_climb (r : List Name × ℕ) (c : Name) (stack : List Name) :
    push (r.1 ++ stack.drop r.2) c = (climb r c).1 ++ stack.drop (climb r c).2 := by
  obtain ⟨new, k⟩ := r
  unfold push climb
  split_ifs with hstay hup hnil
  · rfl
  · obtain rfl : new = [] := hnil
    exact tail_drop
  · exact tail_append_of_ne_nil hnil
  · rfl

theorem foldl_push_eq (stack parts : List Name) :
    parts.foldl push stack = (parts.foldl climb ([], 0)).1 ++ stack.drop (climbed parts) := by
  suffices h : ∀ r : List Name × ℕ, parts.foldl push (r.1 ++ stack.drop r.2) =
      (parts.foldl climb r).1 ++ stack.drop (parts.foldl climb r).2 from h ([], 0)
  induction parts with
  | nil => exact fun _ => rfl
  | cons c parts ih =>
    intro r
    rw [foldl_cons, push_climb, ih]
    rfl

theorem foldl_push_inj {stack' : List Name} : parts.foldl push stack = parts.foldl push stack' ↔
    stack.drop (climbed parts) = stack'.drop (climbed parts) := by
  rw [foldl_push_eq stack, foldl_push_eq stack', append_right_inj]

/-- What matters of a stack is which of its names are wide. -/
theorem NarrowTops.congr {stack' : List Name} (h : NarrowTops stack parts)
    (hwide : ∀ i : ℕ, stack'[i]?.any wide = stack[i]?.any wide) : NarrowTops stack' parts := by
  intro pre c post heq hc
  have htop := h pre c post heq hc
  rw [foldl_push_eq] at htop ⊢
  cases hnew : (pre.foldl climb ([], 0)).1 with
  | nil =>
    rw [hnew, nil_append, head?_drop] at htop
    rw [nil_append, head?_drop, hwide, htop]
  | cons d new => rwa [hnew] at htop

/-! ### The current directory -/

theorem components_append_left {e n : Name} {q : List Char} {rest : List Name} (he : '/' ∉ e)
    (h : components q = n :: rest) : components (e ++ q) = (e ++ n) :: rest := by
  induction e with
  | nil => exact h
  | cons a e ih =>
    rw [mem_cons, not_or] at he
    have ih := ih he.2
    rw [components] at ih ⊢
    rw [cons_append, splitOn_cons_eq_if_modifyHead, if_neg (by simpa using Ne.symm he.1), ih]
    rfl

theorem head?_components {n : Name} {q : List Char} {rest : List Name}
    (h : components q = n :: rest) (hn : n ≠ []) : n.head? = q.head? := by
  cases q with
  | nil => exact absurd (cons.inj h).1.symm hn
  | cons a q =>
    rw [components, splitOn_cons_eq_if_modifyHead] at h
    split_ifs at h with ha
    · exact absurd (cons.inj h).1.symm hn
    · obtain ⟨x, xs, hsplit⟩ := exists_cons_of_ne_nil (splitOn_ne_nil '/' q)
      rw [hsplit] at h
      rw [← (cons.inj h).1]
      rfl

theorem wide_append (e : Name) {n : Name} (hn : n ≠ []) : wide (e ++ n) = wide n := by
  rw [wide, wide, getLast?_append_of_ne_nil _ hn]

theorem absoluteText_inj (hcs : ∀ c ∈ cs, Proper c) (hds : ∀ c ∈ ds, Proper c)
    (h : absoluteText cs = absoluteText ds) : cs = ds := by
  have hnames : ∀ {cs}, (∀ c ∈ cs, Proper c) → canonicalNames (absoluteText cs) = cs := by
    intro cs hcs
    unfold absoluteText
    split_ifs with hnil
    · exact hnil ▸ rfl
    · exact canonicalNames_text hcs
  rw [← hnames hcs, h, hnames hds]

theorem drop_eq_drop_iff_of_length_lt {k : ℕ} (h : cs.length < ds.length) :
    cs.drop k = ds.drop k ↔ ds.length ≤ k := by
  constructor
  · intro heq
    have hlength := congrArg List.length heq
    rw [length_drop, length_drop] at hlength
    omega
  · intro hle
    rw [drop_eq_nil_of_le hle, drop_eq_nil_of_le (h.le.trans hle)]

theorem drop_cons_eq_drop_cons_iff {k : ℕ} {d : Name} (h : c ≠ d) :
    (c :: cs).drop k = (d :: cs).drop k ↔ 1 ≤ k := by
  cases k with
  | zero => simpa using h
  | succ k => simp

theorem NarrowBelow.all (h : NarrowBelow stack) (htop : stack.head?.any wide = false) :
    ∀ c ∈ stack, wide c = false := by
  cases stack with
  | nil => simp
  | cons c stack => exact forall_mem_cons.mpr ⟨htop, h⟩

/-- Above names that are all narrow, only the first name matters. -/
theorem NarrowTops.replace {stack' : List Name} {f : Name} (h : NarrowTops (f :: stack') parts)
    (hstack' : ∀ d ∈ stack', wide d = false) (hstack : ∀ d ∈ stack.tail, wide d = false)
    (hhead : stack.head?.any wide = wide f) : NarrowTops stack parts := by
  refine h.congr fun i => ?_
  have hnarrow : ∀ {l : List Name}, (∀ d ∈ l, wide d = false) →
      ∀ i : ℕ, l[i]?.any wide = false := by
    intro l hl i
    cases hi : l[i]? with
    | none => rfl
    | some d => exact hl d (mem_of_getElem? hi)
  cases i with
  | zero => rwa [← head?_eq_getElem?]
  | succ i => rw [← getElem?_tail, hnarrow hstack, getElem?_cons_succ, hnarrow hstack']

theorem proper_foldl_push (hstack : ∀ c ∈ stack, Proper c) (hparts : ∀ c ∈ parts, '/' ∉ c) :
    ∀ c ∈ parts.foldl push stack, Proper c := by
  intro c hc
  obtain hc | ⟨hmem, hne, hdot, hdotdot⟩ := mem_foldl_push hc
  · exact hstack c hc
  · exact ⟨hne, hdot, hdotdot, hparts c hmem⟩

section

variable {s : FsState} (hproper : ∀ d ∈ ds, Proper d) (hnarrow : NarrowBelow ds.reverse)

include hproper hnarrow

/-- A path below a directory is looked up from there. -/
theorem absolutePath_below (q : List Char) :
    s.absolutePath (text ds ++ '/' :: q) =
      ((components q).foldlM push? ds.reverse).map fun stack => absoluteText stack.reverse := by
  have htops := hnarrow.narrowTops fun d hd => hproper d (mem_reverse.mp hd)
  rw [reverse_reverse] at htops
  have hfold : ([] :: ds).foldlM push? [] = some ds.reverse :=
    foldlM_push?_eq_some.mpr ⟨narrowTops_cons.mpr ⟨fun h => rfl, htops⟩,
      (foldl_push hproper []).trans (append_nil _)⟩
  have hhead : (text ds ++ '/' :: q).head? = some '/' := by cases ds <;> rfl
  rw [FsState.absolutePath, if_pos hhead, canonicalize_absolute hhead, components_append,
    components_text hproper, foldlM_append, hfold]
  rfl

variable (hcwd : s.currentDirPath = text ds ++ ['/'])

include hcwd

theorem absolutePath_relative {q : List Char} (hq : q.head? ≠ some '/') :
    s.absolutePath q =
      ((components q).foldlM push? ds.reverse).map fun stack => absoluteText stack.reverse := by
  have hhead : (text ds ++ '/' :: q).head? = some '/' := by cases ds <;> rfl
  rw [← absolutePath_below hproper hnarrow (s := s), FsState.absolutePath, if_neg hq,
    FsState.absolutePath, if_pos hhead, hcwd, append_assoc]
  rfl

/-- The path that a system call makes of one that begins with `..`. -/
theorem charPtrToAbsolutePath_up (q : List Char) :
    s.charPtrToAbsolutePath (dotdot ++ q) = text ds.dropLast ++ q := by
  have hup : s.charPtrToAbsolutePath (dotdot ++ q) =
      (beforeLastSlash (text ds)).getD (text ds) ++ q := by
    show (match beforeLastSlash s.currentDirPath with | some cwd => _ | none => _) ++ q = _
    rw [hcwd, beforeLastSlash_append _ not_mem_nil]
  rw [hup]
  obtain rfl | ⟨es, d, rfl⟩ := eq_nil_or_concat' ds
  · rfl
  · rw [text_concat, beforeLastSlash_append _ (hproper d (by simp)).no_slash, dropLast_concat]
    rfl

/-- The system call looks `m` up in a directory where it should look `f` up in the current one. -/
theorem samePath_iff {st rest : List Name} {m f : Name}
    (hcode : s.absolutePath (s.charPtrToAbsolutePath path) =
      ((m :: rest).foldlM push? st).map fun stack => absoluteText stack.reverse)
    (hpath : path.head? ≠ some '/') (hcomponents : components path = f :: rest)
    (hst : ∀ c ∈ st, Proper c) (hm : '/' ∉ m)
    (hwide : NarrowTops ds.reverse (f :: rest) → NarrowTops st (m :: rest)) :
    s.SamePath path ↔ NarrowTops ds.reverse (f :: rest) ∧
      (push st m).drop (climbed rest) = (push ds.reverse f).drop (climbed rest) := by
  have hslash : ∀ c ∈ f :: rest, '/' ∉ c :=
    fun c hc => slash_notMem_components (hcomponents ▸ hc)
  have hdirs : ∀ d ∈ ds.reverse, Proper d := fun d hd => hproper d (mem_reverse.mp hd)
  rw [FsState.SamePath, hcode, absolutePath_relative hproper hnarrow hcwd hpath, hcomponents]
  constructor
  · rintro ⟨r, hr, hr'⟩
    obtain ⟨stack₁, h₁, rfl⟩ := map_eq_some_iff.mp hr
    obtain ⟨stack₂, h₂, heq⟩ := map_eq_some_iff.mp hr'
    obtain ⟨-, rfl⟩ := foldlM_push?_eq_some.mp h₁
    obtain ⟨htops, rfl⟩ := foldlM_push?_eq_some.mp h₂
    refine ⟨htops, foldl_push_inj.mp (reverse_injective (absoluteText_inj ?_ ?_ heq.symm))⟩
    · exact fun c hc => proper_foldl_push hst (forall_mem_cons.mpr
        ⟨hm, (forall_mem_cons.mp hslash).2⟩) c (mem_reverse.mp hc)
    · exact fun c hc => proper_foldl_push hdirs hslash c (mem_reverse.mp hc)
  · rintro ⟨htops, hdrop⟩
    have hsame : rest.foldl push (push st m) = rest.foldl push (push ds.reverse f) :=
      foldl_push_inj.mpr hdrop
    refine ⟨absoluteText ((f :: rest).foldl push ds.reverse).reverse, ?_, ?_⟩
    · rw [foldlM_push?_eq_some.mpr ⟨hwide htops, hsame⟩]
      rfl
    · rw [foldlM_push?_eq_some.mpr ⟨htops, rfl⟩]
      rfl

/-- A path that begins with one dot. -/
theorem samePath_dot {q : List Char} {n : Name} {rest : List Name} (hq : q.head? ≠ some '.')
    (hcomponents : components q = n :: rest) :
    s.SamePath ('.' :: q) ↔ NarrowTops ds.reverse (('.' :: n) :: rest) ∧
      (n = [] ∨ 1 ≤ climbed rest) := by
  have hno : '/' ∉ n := slash_notMem_components (hcomponents ▸ mem_cons_self)
  have hcode : s.absolutePath (s.charPtrToAbsolutePath ('.' :: q)) =
      ((n :: rest).foldlM push? ds.reverse).map fun stack => absoluteText stack.reverse := by
    have hstrip : s.charPtrToAbsolutePath ('.' :: q) = text ds ++ '/' :: q := by
      cases q with
      | nil => exact hcwd ▸ append_nil _
      | cons a q =>
        rw [FsState.charPtrToAbsolutePath, hcwd, append_assoc]
        · rfl
        · exact fun stripped heq => hq (by rw [(cons.inj heq).1]; rfl)
    rw [hstrip, absolutePath_below hproper hnarrow, hcomponents]
  have hfirst : components ('.' :: q) = ('.' :: n) :: rest :=
    components_append_left (e := dot) (by decide) hcomponents
  have hdirs : ∀ d ∈ ds.reverse, Proper d := fun d hd => hproper d (mem_reverse.mp hd)
  by_cases hn : n = []
  · subst hn
    rw [samePath_iff hproper hnarrow hcwd hcode (by simp) hfirst hdirs hno fun h =>
      narrowTops_cons.mpr ⟨fun h => absurd rfl h.ne_nil, (narrowTops_cons.mp h).2⟩]
    exact and_congr_right fun _ => iff_of_true rfl (.inl rfl)
  · have hhead : n.head? = q.head? := head?_components hcomponents hn
    have hproper₁ : Proper n := by
      refine ⟨hn, fun heq => ?_, fun heq => ?_, hno⟩ <;>
      · rw [heq] at hhead
        exact hq hhead.symm
    have hproper₂ : Proper ('.' :: n) := by
      refine ⟨cons_ne_nil _ _, fun heq => hn (cons.inj heq).2, fun heq => ?_, by simpa using hno⟩
      exact hproper₁.ne_dot (cons.inj heq).2
    have hwide : wide ('.' :: n) = wide n := wide_append dot hn
    rw [samePath_iff hproper hnarrow hcwd hcode (by simp) hfirst hdirs hno fun h => ?_,
      push_proper hproper₁, push_proper hproper₂]
    · rw [drop_cons_eq_drop_cons_iff fun heq => absurd (congrArg List.length heq) (by simp),
        or_iff_right hn]
    · obtain ⟨htop, hrest⟩ := narrowTops_cons.mp h
      refine narrowTops_cons.mpr ⟨fun _ => htop hproper₂, hrest.congr fun i => ?_⟩
      rw [push_proper hproper₁, push_proper hproper₂]
      cases i with
      | zero => exact hwide.symm
      | succ i => rfl

/-- How far up the path has to lead behind the name `f` for the directory of `f` not to matter. -/
def neededClimb (ds : List Name) (f : Name) : ℕ :=
  if 2 ≤ ds.length ∨ f = dotdot ++ dot ∨ f = dotdot ++ dotdot then ds.length + 1 else 1

section

variable {q : List Char} {n : Name} {rest : List Name} (hn : n ≠ [])
  (hcomponents : components q = n :: rest)

omit hproper hnarrow hcwd in
include hn hcomponents in
theorem proper_dotdot_append : Proper (dotdot ++ n) := by
  have hno : '/' ∉ n := slash_notMem_components (hcomponents ▸ mem_cons_self)
  refine ⟨by simp [dotdot], by simp [dotdot, dot], ?_, by simpa [dotdot] using hno⟩
  simpa [dotdot] using hn

include hn hcomponents

/-- In the root directory and below it, the rest of the name is looked up in the current
directory. -/
theorem samePath_dotdot_iff (hnil : ds.dropLast = [])
    (hwide : NarrowTops ds.reverse ((dotdot ++ n) :: rest) → NarrowTops ds.reverse (n :: rest)) :
    s.SamePath (dotdot ++ q) ↔ NarrowTops ds.reverse ((dotdot ++ n) :: rest) ∧
      (push ds.reverse n).drop (climbed rest) =
        ((dotdot ++ n) :: ds.reverse).drop (climbed rest) := by
  have hno : '/' ∉ n := slash_notMem_components (hcomponents ▸ mem_cons_self)
  have hq : q.head? ≠ some '/' := by
    rw [← head?_components hcomponents hn]
    exact fun heq => hno (mem_of_head? heq)
  have hcode : s.absolutePath (s.charPtrToAbsolutePath (dotdot ++ q)) =
      ((n :: rest).foldlM push? ds.reverse).map fun stack => absoluteText stack.reverse := by
    rw [charPtrToAbsolutePath_up hproper hnarrow hcwd, hnil, show text [] ++ q = q from rfl,
      absolutePath_relative hproper hnarrow hcwd hq, hcomponents]
  have hpush := push_proper (proper_dotdot_append hn hcomponents) ds.reverse
  exact hpush ▸ samePath_iff hproper hnarrow hcwd hcode (by simp [dotdot])
    (components_append_left (by decide) hcomponents) (fun d hd => hproper d (mem_reverse.mp hd))
    hno hwide

/-- The name is `...` or `....`: another `.` or `..` is followed instead. -/
theorem samePath_dotdot_dots (hnil : ds.dropLast = []) (hdots : n = dot ∨ n = dotdot) :
    s.SamePath (dotdot ++ q) ↔ NarrowTops ds.reverse ((dotdot ++ n) :: rest) ∧
      ds.length + 1 ≤ climbed rest := by
  have hf : Proper (dotdot ++ n) := proper_dotdot_append hn hcomponents
  have hsub : push ds.reverse n = ds.reverse ∨ push ds.reverse n = ds.reverse.tail := by
    obtain rfl | rfl := hdots
    · exact .inl rfl
    · exact .inr rfl
  rw [samePath_dotdot_iff hproper hnarrow hcwd hn hcomponents hnil fun h => ?_,
    drop_eq_drop_iff_of_length_lt, length_cons, length_reverse]
  · rw [length_cons]
    obtain h | h := hsub <;> rw [h]
    · omega
    · rw [length_tail]
      omega
  · obtain ⟨htop, hrest⟩ := narrowTops_cons.mp h
    rw [push_proper hf] at hrest
    have hall := hnarrow.all (htop hf)
    have hall' : ∀ d ∈ push ds.reverse n, wide d = false := by
      obtain h | h := hsub <;> rw [h]
      · exact hall
      · exact fun d hd => hall d (mem_of_mem_tail hd)
    refine narrowTops_cons.mpr ⟨fun h => absurd (hdots.elim h.ne_dot h.ne_dotdot) id,
      hrest.replace hall (fun d hd => hall' d (mem_of_mem_tail hd)) ?_⟩
    have hwide : wide (dotdot ++ n) = false := by obtain rfl | rfl := hdots <;> decide
    rw [hwide]
    cases hpush : push ds.reverse n with
    | nil => rfl
    | cons d stack => exact hall' d (hpush ▸ mem_cons_self)

/-- The name without its two dots is another one. -/
theorem samePath_dotdot_name (hnil : ds.dropLast = []) (hproper₁ : Proper n) :
    s.SamePath (dotdot ++ q) ↔ NarrowTops ds.reverse ((dotdot ++ n) :: rest) ∧
      1 ≤ climbed rest := by
  have hf : Proper (dotdot ++ n) := proper_dotdot_append hn hcomponents
  rw [samePath_dotdot_iff hproper hnarrow hcwd hn hcomponents hnil fun h => ?_,
    push_proper hproper₁, drop_cons_eq_drop_cons_iff]
  · exact fun heq => absurd (congrArg List.length heq) (by simp [dotdot]; omega)
  · obtain ⟨htop, hrest⟩ := narrowTops_cons.mp h
    have hall := hnarrow.all (htop hf)
    rw [push_proper hf] at hrest
    refine narrowTops_cons.mpr ⟨fun _ => htop hf, ?_⟩
    rw [push_proper hproper₁]
    exact hrest.replace hall hall (wide_append dotdot hn).symm

theorem samePath_dotdot_of_dropLast_eq_nil (hnil : ds.dropLast = []) :
    s.SamePath (dotdot ++ q) ↔ NarrowTops ds.reverse ((dotdot ++ n) :: rest) ∧
      neededClimb ds (dotdot ++ n) ≤ climbed rest := by
  have hlength : ds.length ≤ 1 := by
    have hdrop := congrArg List.length hnil
    rw [length_dropLast, length_nil] at hdrop
    omega
  by_cases hdots : n = dot ∨ n = dotdot
  · have hneeded : neededClimb ds (dotdot ++ n) = ds.length + 1 :=
      if_pos (.inr (hdots.imp (congrArg (dotdot ++ ·)) (congrArg (dotdot ++ ·))))
    rw [hneeded]
    exact samePath_dotdot_dots hproper hnarrow hcwd hn hcomponents hnil hdots
  · rw [not_or] at hdots
    have hneeded : neededClimb ds (dotdot ++ n) = 1 := by
      refine if_neg ?_
      rw [append_right_inj, append_right_inj]
      rintro (h | h | h)
      · omega
      · exact hdots.1 h
      · exact hdots.2 h
    rw [hneeded]
    exact samePath_dotdot_name hproper hnarrow hcwd hn hcomponents hnil
      ⟨hn, hdots.1, hdots.2, slash_notMem_components (hcomponents ▸ mem_cons_self)⟩

/-- Elsewhere, it is glued to the name of the directory above. -/
theorem samePath_dotdot_of_dropLast_eq {es : List Name} {e : Name} (hes : ds.dropLast = es ++ [e]) :
    s.SamePath (dotdot ++ q) ↔ NarrowTops ds.reverse ((dotdot ++ n) :: rest) ∧
      neededClimb ds (dotdot ++ n) ≤ climbed rest := by
  obtain ⟨d, hds⟩ : ∃ d, ds.reverse = d :: e :: es.reverse := by
    obtain rfl | ⟨l, d, rfl⟩ := eq_nil_or_concat' ds
    · cases es <;> cases hes
    · rw [dropLast_concat] at hes
      exact ⟨d, by rw [hes, reverse_concat, reverse_concat]⟩
  have hmem : ∀ {c}, c ∈ e :: es.reverse → c ∈ ds := fun hc =>
    mem_reverse.mp (hds ▸ mem_cons_of_mem d hc)
  have hbelow : ∀ c ∈ es.reverse, wide c = false := fun c hc =>
    hnarrow c (by rw [hds]; exact mem_cons_of_mem e hc)
  have hno : '/' ∉ n := slash_notMem_components (hcomponents ▸ mem_cons_self)
  have hf : Proper (dotdot ++ n) := proper_dotdot_append hn hcomponents
  have he : Proper e := hproper e (hmem mem_cons_self)
  have hdirs : ∀ c ∈ es.reverse, Proper c := fun c hc => hproper c (hmem (mem_cons_of_mem e hc))
  have hm : Proper (e ++ n) := he.append hn hno
  have hcode : s.absolutePath (s.charPtrToAbsolutePath (dotdot ++ q)) =
      (((e ++ n) :: rest).foldlM push? es.reverse).map fun stack => absoluteText stack.reverse := by
    rw [charPtrToAbsolutePath_up hproper hnarrow hcwd, hes, text_concat, append_assoc, cons_append,
      absolutePath_below (fun c hc => hdirs c (mem_reverse.mpr hc))
        fun c hc => hbelow c (mem_of_mem_tail hc),
      components_append_left he.no_slash hcomponents]
  have hlength : ds.length = es.length + 2 := by
    rw [← length_reverse, hds, length_cons, length_cons, length_reverse]
  rw [samePath_iff hproper hnarrow hcwd hcode (by simp [dotdot])
      (components_append_left (by decide) hcomponents) hdirs hm.no_slash fun h => ?_,
    push_proper hm, push_proper hf, drop_eq_drop_iff_of_length_lt, neededClimb,
    if_pos (.inl (by omega)), length_cons, length_reverse]
  · simp only [length_cons, length_reverse]
    omega
  · obtain ⟨htop, hrest⟩ := narrowTops_cons.mp h
    rw [push_proper hf] at hrest
    refine narrowTops_cons.mpr ⟨fun _ => ?_, ?_⟩
    · cases hrev : es.reverse with
      | nil => rfl
      | cons c l => exact hbelow c (hrev ▸ mem_cons_self)
    · rw [push_proper hm]
      exact hrest.replace (hnarrow.all (htop hf)) hbelow
        ((wide_append e hn).trans (wide_append dotdot hn).symm)

end

/-- A path that begins with `..`, when the rest of it is looked up in the directory `st`. -/
theorem samePath_up_iff {q : List Char} {st rest : List Name}
    (hcomponents : components q = [] :: rest) (hst : ∀ c ∈ st, Proper c)
    (hcode : s.absolutePath (s.charPtrToAbsolutePath (dotdot ++ q)) =
      (rest.foldlM push? st).map fun stack => absoluteText stack.reverse)
    (hwide : NarrowTops ds.dropLast.reverse rest → NarrowTops st rest) :
    s.SamePath (dotdot ++ q) ↔ NarrowTops ds.reverse (dotdot :: rest) ∧
      st.drop (climbed rest) = ds.dropLast.reverse.drop (climbed rest) := by
  have hcode' : s.absolutePath (s.charPtrToAbsolutePath (dotdot ++ q)) =
      (([] :: rest).foldlM push? st).map fun stack => absoluteText stack.reverse := hcode
  have heq : push ds.reverse dotdot = ds.dropLast.reverse := tail_reverse
  rw [samePath_iff hproper hnarrow hcwd hcode' (by simp [dotdot])
    (components_append_left (by decide) hcomponents) hst not_mem_nil fun h => ?_]
  · exact and_congr_right fun _ => heq ▸ .rfl
  · exact narrowTops_cons.mpr
      ⟨fun h => absurd rfl h.ne_nil, hwide (heq ▸ (narrowTops_cons.mp h).2)⟩

/-- A path that begins with `..` leads to the directory above, unless that is the root directory and
nothing follows: the empty path is the current directory. -/
theorem samePath_up {q : List Char} {rest : List Name} (hcomponents : components q = [] :: rest) :
    s.SamePath (dotdot ++ q) ↔ NarrowTops ds.reverse (dotdot :: rest) ∧
      (rest = [] → ds.length ≠ 1) := by
  have hup := charPtrToAbsolutePath_up hproper hnarrow hcwd q
  have hdrop : ∀ d ∈ ds.dropLast, Proper d := fun d hd => hproper d (mem_of_mem_dropLast hd)
  have hbelow : NarrowBelow ds.dropLast.reverse := by
    rw [← tail_reverse]
    exact fun d hd => hnarrow d (mem_of_mem_tail hd)
  have hdrop' : ∀ d ∈ ds.dropLast.reverse, Proper d := fun d hd => hdrop d (mem_reverse.mp hd)
  cases q with
  | nil =>
    obtain rfl : rest = [] := (cons.inj hcomponents).2.symm
    by_cases hnil : ds.dropLast = []
    · have hlength := congrArg List.length hnil
      rw [length_dropLast, length_nil] at hlength
      rw [samePath_up_iff hproper hnarrow hcwd hcomponents
        (fun d hd => hproper d (mem_reverse.mp hd)) ?_ fun _ => .nil _, hnil]
      · refine and_congr_right fun _ => ?_
        show ds.reverse = [] ↔ _
        rw [reverse_eq_nil_iff, ← length_eq_zero_iff]
        simp only [forall_const]
        omega
      · rw [hup, hnil, show text [] ++ [] = [] from rfl,
          absolutePath_relative hproper hnarrow hcwd (by simp), hcomponents]
        rfl
    · rw [samePath_up_iff hproper hnarrow hcwd hcomponents hdrop' ?_ id]
      · refine and_congr_right fun _ => iff_of_true rfl fun _ hone => hnil ?_
        exact length_eq_zero_iff.mp (by rw [length_dropLast, hone])
      · have htops := hbelow.narrowTops hdrop'
        rw [reverse_reverse] at htops
        have htext : canonicalText true ds.dropLast = text ds.dropLast := if_neg hnil
        have hhead : (text ds.dropLast).head? = some '/' := by
          obtain ⟨c, cs, hcs⟩ := exists_cons_of_ne_nil hnil
          rw [hcs]
          rfl
        rw [hup, append_nil, FsState.absolutePath, if_pos hhead, ← htext,
          canonicalize_canonicalText true hdrop htops]
        exact congrArg (fun l => some (absoluteText l)) (reverse_reverse _).symm
  | cons a q =>
    obtain rfl : a = '/' := by
      by_contra ha
      rw [components, splitOn_cons_eq_if_modifyHead, if_neg (by simpa using ha)] at hcomponents
      obtain ⟨x, xs, hsplit⟩ := exists_cons_of_ne_nil (splitOn_ne_nil '/' q)
      rw [hsplit] at hcomponents
      cases hcomponents
    have hrest : components q = rest :=
      (cons.inj ((components_append [] q).symm.trans hcomponents)).2
    rw [samePath_up_iff hproper hnarrow hcwd hcomponents hdrop' ?_ id]
    · exact and_congr_right fun _ => iff_of_true rfl fun hnil =>
        absurd (hrest.trans hnil) (splitOn_ne_nil '/' q)
    · rw [hup, absolutePath_below hdrop hbelow, hrest]

/-- The first name is `.` or `..`, though not all of the path is `..` in a directory of the root
directory, or it is a name with a dot in front that the path leaves again: because of the dots it is
looked up under another name or in another directory. -/
def DotsOk (ds : List Name) (path : List Char) : Prop :=
  path.head? = some '.' → ∀ f rest, components path = f :: rest →
    f = dot ∨ f = dotdot ∧ (rest = [] → ds.length ≠ 1) ∨
      f ≠ dotdot ∧ (if dotdot <+: f then neededClimb ds f else 1) ≤ climbed rest

omit hproper hnarrow hcwd in
theorem dotsOk_iff {f : Name} {rest : List Name} (hhead : path.head? = some '.')
    (hcomponents : components path = f :: rest) : DotsOk ds path ↔
      f = dot ∨ f = dotdot ∧ (rest = [] → ds.length ≠ 1) ∨
        f ≠ dotdot ∧ (if dotdot <+: f then neededClimb ds f else 1) ≤ climbed rest := by
  refine ⟨fun h => h hhead f rest hcomponents, fun h _ f' rest' hcomponents' => ?_⟩
  cases hcomponents.symm.trans hcomponents'
  exact h

/-- **System calls find the path they are given** iff `canonicalize` does not panic on it and the
dots that it begins with do not lead elsewhere. -/
theorem charPtrToAbsolutePath_resolves_iff (path : List Char) :
    s.SamePath path ↔
      NarrowTops [] (components
        (if path.head? = some '/' then path else s.currentDirPath ++ path)) ∧ DotsOk ds path := by
  have habs : NarrowTops [] (components
      (if path.head? = some '/' then path else s.currentDirPath ++ path)) ↔
        ∃ r, s.absolutePath path = some r := by
    rw [FsState.absolutePath, ← apply_ite canonicalize]
    simp only [canonicalize_eq_some, exists_and_left, exists_eq, and_true]
  rw [habs]
  by_cases hhead : path.head? = some '.'
  · obtain ⟨f, rest, hcomponents⟩ := exists_cons_of_ne_nil (splitOn_ne_nil '/' path)
    have htops : (∃ r, s.absolutePath path = some r) ↔ NarrowTops ds.reverse (f :: rest) := by
      rw [absolutePath_relative hproper hnarrow hcwd (by rw [hhead]; decide),
        show components path = f :: rest from hcomponents]
      simp only [map_eq_some_iff, foldlM_push?_eq_some]
      exact ⟨fun ⟨_, _, h, _⟩ => h.1, fun h => ⟨_, _, ⟨h, rfl⟩, rfl⟩⟩
    rw [htops, dotsOk_iff hhead hcomponents]
    obtain ⟨q, rfl⟩ := head?_eq_some_iff.mp hhead
    by_cases hdot : q.head? = some '.'
    · obtain ⟨q, rfl⟩ := head?_eq_some_iff.mp hdot
      obtain ⟨n, rest', hq⟩ := exists_cons_of_ne_nil (splitOn_ne_nil '/' q)
      cases hcomponents.symm.trans (components_append_left (e := dotdot) (by decide) hq)
      by_cases hn : n = []
      · subst hn
        refine (samePath_up hproper hnarrow hcwd hq).trans (and_congr_right fun _ => ?_)
        simp [dotdot, dot]
      · have hsame : s.SamePath (dotdot ++ q) ↔ NarrowTops ds.reverse ((dotdot ++ n) :: rest) ∧
            neededClimb ds (dotdot ++ n) ≤ climbed rest := by
          obtain hnil | ⟨es, e, hes⟩ := eq_nil_or_concat' ds.dropLast
          · exact samePath_dotdot_of_dropLast_eq_nil hproper hnarrow hcwd hn hq hnil
          · exact samePath_dotdot_of_dropLast_eq hproper hnarrow hcwd hn hq hes
        refine hsame.trans (and_congr_right fun _ => ?_)
        simp [dotdot, dot, hn]
    · obtain ⟨n, rest', hq⟩ := exists_cons_of_ne_nil (splitOn_ne_nil '/' q)
      cases hcomponents.symm.trans (components_append_left (e := dot) (by decide) hq)
      have hnd : n.head? ≠ some '.' := by
        by_cases hn : n = []
        · simp [hn]
        · rwa [head?_components hq hn]
      refine (samePath_dot hproper hnarrow hcwd hdot hq).trans (and_congr_right fun _ => ?_)
      cases n with
      | nil => simp [dot]
      | cons a n =>
        have ha : a ≠ '.' := fun heq => hnd (heq ▸ rfl)
        simp [dot, dotdot, ha, Ne.symm ha]
  · have hsame : s.charPtrToAbsolutePath path = path := by
      unfold FsState.charPtrToAbsolutePath
      split
      · exact absurd rfl hhead
      · exact absurd rfl hhead
      · rfl
    rw [FsState.SamePath, hsame]
    simp only [and_self]
    exact (and_iff_left fun h => absurd h hhead).symm

end

/-- A file system in a directory. -/
def sampleCwd (cwd : String) : FsState :=
  { FsState.init ⟨⟨0⟩, []⟩ RamFileSystem.new.heap with currentDirPath := cwd.toList }

/-- The hidden directory is looked for as `x`, but the path leaves it. -/
theorem charPtrToAbsolutePath_resolves_iff_sample :
    (sampleCwd "/a/b/").SamePath ".x/../é".toList := by
  have htops : (components "/a/b/.x/../é".toList).foldlM push? [] =
      some (["é", "b", "a"].map String.toList) := by decide
  refine (@charPtrToAbsolutePath_resolves_iff ["a".toList, "b".toList] _ (by decide)
    (by unfold NarrowBelow; decide) rfl _).mpr
      ⟨(foldlM_push?_eq_some.mp htops).1, fun _ f rest heq => ?_⟩
  · cases heq
    exact .inr (.inr ⟨by decide, by decide⟩)

/-- Hidden files are looked for under other names, the directory above `/a` is `/a`, and a path with
a wide name is not resolved at all. -/
theorem charPtrToAbsolutePath_misses :
    ¬(sampleCwd "/a/").SamePath ".p".toList ∧ ¬(sampleCwd "/a/b/").SamePath "..p".toList ∧
      ¬(sampleCwd "/a/").SamePath "..".toList ∧ ¬(sampleCwd "/").SamePath "./é/a".toList := by
  refine ⟨?_, ?_, ?_, ?_⟩ <;> rintro ⟨r, hr, hr'⟩
  · exact absurd (hr.trans hr'.symm) (by decide)
  · exact absurd (hr.trans hr'.symm) (by decide)
  · exact absurd (hr.trans hr'.symm) (by decide)
  · cases (show canonicalize "/./é/a".toList = none by decide).symm.trans hr'

end HvisorRux.Rux.Fs
