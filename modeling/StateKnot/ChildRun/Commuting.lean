import StateKnot.ChildRun.AccountHistory
import StateKnot.Written

/-!
# Calls that commute

Children of a run start and end in no particular order.  An account does not remember
the order: reservations and settlements of different children can be exchanged, since
its entries are sorted by key and its digest covers nothing else.  Two reservations
that both fit fit in either order, also as far as the size of the account is concerned,
since a document with fewer entries is never longer.
-/

namespace StateKnot

open Lib BudgetUsage

variable {E : Encoding}

/-! ## What a call does to the children -/

/-- The child that a call is about. -/
def AccountCall.childKey : AccountCall E → Option (ChildRunKey E)
  | .reserve intent _ _ => some intent.key
  | .settle key _ => some key
  | .observeDirect _ _ => none

def ChildRunBudgetEntry.settledAs (key : ChildRunKey E) (settlement : ChildRunBudgetSettlement)
    (entry : ChildRunBudgetEntry E) : ChildRunBudgetEntry E :=
  if entry.key = key then { entry with settlement := some settlement } else entry

namespace ChildRunBudgetEntry

variable {key : ChildRunKey E} {settlement : ChildRunBudgetSettlement}

theorem settledAs_key (entry : ChildRunBudgetEntry E) :
    (entry.settledAs key settlement).key = entry.key := by
  unfold settledAs
  split <;> rfl

theorem settledAs_of_ne {entry : ChildRunBudgetEntry E} (h : entry.key ≠ key) :
    entry.settledAs key settlement = entry := if_neg h

theorem settledAs_comm {key' : ChildRunKey E} {settlement' : ChildRunBudgetSettlement}
    (hne : key ≠ key') (entry : ChildRunBudgetEntry E) :
    (entry.settledAs key settlement).settledAs key' settlement' =
      (entry.settledAs key' settlement').settledAs key settlement := by
  by_cases hkey : entry.key = key
  · have hkey' : entry.key ≠ key' := hkey ▸ hne
    have hother : (entry.settledAs key settlement).key ≠ key' := by rwa [settledAs_key]
    rw [settledAs_of_ne hkey', settledAs_of_ne hother]
  · have hother : (entry.settledAs key' settlement').key ≠ key := by rwa [settledAs_key]
    rw [settledAs_of_ne hkey, settledAs_of_ne hother]

end ChildRunBudgetEntry

namespace AccountCall

variable {children children' : List (ChildRunBudgetEntry E)} {key : ChildRunKey E}

/-- Some child has the key. -/
def Held (children : List (ChildRunBudgetEntry E)) (key : ChildRunKey E) : Prop :=
  ∃ entry ∈ children, entry.key = key

instance : Decidable (Held children key) :=
  inferInstanceAs (Decidable (∃ entry ∈ children, entry.key = key))

/-- The entries that a reservation of a new child adds. -/
def added (intent : ChildRunAdmissionIntent E) : List (ChildRunBudgetEntry E) :=
  (ChildRunBudgetAccount.newEntry intent).toOption.toList

/-- The children after an accepted call, up to their order. -/
def edit (children : List (ChildRunBudgetEntry E)) : AccountCall E → List (ChildRunBudgetEntry E)
  | .reserve intent _ _ => if Held children intent.key then children else children ++ added intent
  | .settle key settlement => children.map (ChildRunBudgetEntry.settledAs key settlement)
  | .observeDirect _ _ => children

variable {intent : ChildRunAdmissionIntent E}

theorem key_of_mem_added {entry : ChildRunBudgetEntry E}
    (h : entry ∈ added intent) : entry.key = intent.key := by
  rw [added, Option.mem_toList, toOption_eq_some] at h
  exact (ChildRunBudgetAccount.newEntry_eq_ok h).2.2.1

theorem held_of_perm (hperm : children.Perm children') : Held children key ↔ Held children' key := by
  simp only [Held, hperm.mem_iff]

theorem held_append_added (hne : intent.key ≠ key) :
    Held (children ++ added intent) key ↔ Held children key := by
  constructor
  · intro h
    obtain ⟨entry, hentry, hkey⟩ := h
    rcases List.mem_append.mp hentry with hentry | hentry
    · exact ⟨entry, hentry, hkey⟩
    · exact absurd ((key_of_mem_added hentry).symm.trans hkey) hne
  · intro h
    obtain ⟨entry, hentry, hkey⟩ := h
    exact ⟨entry, List.mem_append_left _ hentry, hkey⟩

theorem held_map_settledAs {settled : ChildRunKey E} {settlement : ChildRunBudgetSettlement} :
    Held (children.map (ChildRunBudgetEntry.settledAs settled settlement)) key ↔
      Held children key := by
  simp only [Held, List.mem_map, exists_exists_and_eq_and, ChildRunBudgetEntry.settledAs_key]

theorem edit_perm (hperm : children.Perm children') (call : AccountCall E) :
    (call.edit children).Perm (call.edit children') := by
  cases call with
  | reserve intent graph observedAt =>
    unfold edit
    simp only [held_of_perm hperm]
    split
    · exact hperm
    · exact hperm.append_right _
  | settle key settlement => exact hperm.map _
  | observeDirect head usage => exact hperm

theorem edit_reserve_settle (children : List (ChildRunBudgetEntry E)) {graph : CompiledGraph E} {observedAt : Timestamp}
    {settlement : ChildRunBudgetSettlement} (hne : intent.key ≠ key) :
    (settle key settlement).edit ((reserve intent graph observedAt).edit children) =
      (reserve intent graph observedAt).edit ((settle key settlement).edit children) := by
  have hadded : (added intent).map (ChildRunBudgetEntry.settledAs key settlement) =
      added intent := by
    refine (List.map_congr_left fun entry hentry => ?_).trans (List.map_id' _)
    exact ChildRunBudgetEntry.settledAs_of_ne (key_of_mem_added hentry ▸ hne)
  unfold edit
  simp only [held_map_settledAs]
  split
  · rfl
  · rw [List.map_append, hadded]

theorem edit_reserve_reserve (children : List (ChildRunBudgetEntry E))
    {first second : ChildRunAdmissionIntent E} {graph graph' : CompiledGraph E}
    {observedAt observedAt' : Timestamp} (hne : first.key ≠ second.key) :
    ((reserve second graph' observedAt').edit
      ((reserve first graph observedAt).edit children)).Perm
      ((reserve first graph observedAt).edit
        ((reserve second graph' observedAt').edit children)) := by
  unfold edit
  by_cases hfirst : Held children first.key
  · by_cases hsecond : Held children second.key
    · simp only [if_pos hfirst, if_pos hsecond]
      exact .refl _
    · simp only [if_pos hfirst, if_neg hsecond, held_append_added hne.symm]
      exact .refl _
  · by_cases hsecond : Held children second.key
    · simp only [if_neg hfirst, if_pos hsecond, held_append_added hne]
      exact .refl _
    · simp only [if_neg hfirst, if_neg hsecond, held_append_added hne, held_append_added hne.symm,
        List.append_assoc]
      exact List.perm_append_comm.append_left _

/-- Calls about different children change the list of children in either order alike. -/
theorem edit_comm (children : List (ChildRunBudgetEntry E)) {first second : AccountCall E}
    {key key' : ChildRunKey E} (hfirst : first.childKey = some key)
    (hsecond : second.childKey = some key') (hne : key ≠ key') :
    (second.edit (first.edit children)).Perm (first.edit (second.edit children)) := by
  cases first with
  | observeDirect head usage => cases hfirst
  | reserve intent graph observedAt =>
    cases hfirst
    cases second with
    | observeDirect head usage => cases hsecond
    | reserve intent' graph' observedAt' =>
      cases hsecond
      exact edit_reserve_reserve children hne
    | settle key' settlement' =>
      cases hsecond
      rw [edit_reserve_settle children hne]
  | settle key settlement =>
    cases hfirst
    cases second with
    | observeDirect head usage => cases hsecond
    | reserve intent' graph' observedAt' =>
      cases hsecond
      rw [edit_reserve_settle children hne.symm]
    | settle key' settlement' =>
      cases hsecond
      simp only [edit, List.map_map]
      have hcomm : ChildRunBudgetEntry.settledAs key' settlement' ∘
          ChildRunBudgetEntry.settledAs key settlement =
          ChildRunBudgetEntry.settledAs key settlement ∘
            ChildRunBudgetEntry.settledAs key' settlement' :=
        funext fun entry => ChildRunBudgetEntry.settledAs_comm hne entry
      rw [hcomm]

end AccountCall

namespace ChildRunBudgetAccount

variable {account next : ChildRunBudgetAccount E}

def withChildren (account : ChildRunBudgetAccount E) (children : List (ChildRunBudgetEntry E)) :
    AccountTerms E :=
  { account.toAccountTerms with children := children }

variable {key : ChildRunKey E}

theorem held_iff :
    AccountCall.Held account.children key ↔ account.entry key ≠ none := by
  rw [← Option.isSome_iff_ne_none, AccountTerms.entry, List.find?_isSome]
  simp only [AccountCall.Held, decide_eq_true_eq]

/-- An accepted reservation or settlement edits the children, and only them. -/
theorem call_edits {call : AccountCall E} (hkey : call.childKey = some key)
    (h : account.call call = .ok next) :
    next.toAccountTerms = (account.withChildren (call.edit account.children)).ordered := by
  have hself : account.toAccountTerms = (account.withChildren account.children).ordered := by
    show account.toAccountTerms = account.toAccountTerms.ordered
    rw [AccountTerms.ordered, account.sorted.sortByKey_eq]
  cases call with
  | observeDirect head usage => cases hkey
  | reserve intent graph observedAt =>
    by_cases hheld : AccountCall.Held account.children intent.key
    · rw [AccountCall.edit, if_pos hheld]
      obtain ⟨existing, hexisting⟩ := Option.ne_none_iff_exists'.mp (held_iff.mp hheld)
      have hcall : account.reserve intent graph observedAt = .ok next := h
      simp only [reserve, hexisting, bind_eq_ok, reject_eq_ok, exists_const, pure_eq_ok] at hcall
      obtain ⟨_, _, _, rfl⟩ := hcall
      exact hself
    · rw [AccountCall.edit, if_neg hheld]
      have hnone : account.entry intent.key = none := by
        by_contra hsome
        exact hheld (held_iff.mpr hsome)
      obtain ⟨entry, _, hentry, _, hnext⟩ := reserve_new h hnone
      rw [hnext, AccountCall.added, hentry]
      rfl
  | settle key settlement =>
    cases hentry : account.entry key with
    | none =>
      have hcall : account.settle key settlement = .ok next := h
      simp [settle, hentry, okOr, bind_eq_ok] at hcall
    | some entry =>
      cases hsettlement : entry.settlement with
      | none => exact settle_outstanding h hentry hsettlement
      | some existing =>
        have hcall : account.settle key settlement = .ok next := h
        simp only [settle, hentry, hsettlement, okOr, bind_eq_ok, reject_eq_ok, exists_const,
          Except.ok.injEq, exists_eq_left', not_not, pure, Except.pure] at hcall
        obtain ⟨_, _, _, _, rfl, rfl⟩ := hcall
        -- The entry is settled so already, so the edit changes nothing.
        have hsame : account.children.map (ChildRunBudgetEntry.settledAs key existing) =
            account.children := by
          refine (List.map_congr_left fun other hother => ?_).trans (List.map_id' _)
          by_cases hother' : other.key = key
          · have hfound := entry_eq_some.mpr ⟨hother, hother'⟩
            rw [hentry] at hfound
            cases hfound
            rw [ChildRunBudgetEntry.settledAs, if_pos hother', ← hsettlement]
          · exact ChildRunBudgetEntry.settledAs_of_ne hother'
        rw [AccountCall.edit, hsame]
        exact hself

theorem call_children_perm {call : AccountCall E}
    (hkey : call.childKey = some key) (h : account.call call = .ok next) :
    next.children.Perm (call.edit account.children) := by
  rw [call_edits hkey h]
  exact sortByKey_perm _ _

/-- Beyond the children everything stays as it was. -/
theorem call_withChildren (call : AccountCall E)
    (hkey : call.childKey = some key) (h : account.call call = .ok next)
    (children : List (ChildRunBudgetEntry E)) :
    next.withChildren children = account.withChildren children := by
  show { next.toAccountTerms with children := children } = _
  rw [call_edits hkey h]
  rfl

theorem eq_of_perm {first second : ChildRunBudgetAccount E}
    (hterms : first.withChildren second.children = second.toAccountTerms)
    (hperm : first.children.Perm second.children) : first = second := by
  have hchildren : first.children = second.children :=
    first.sorted.eq_of_mem_iff second.sorted fun entry => hperm.mem_iff
  have hsame : first.toAccountTerms = second.toAccountTerms := by
    rw [← hterms, withChildren, ← hchildren]
  have hdigest : first.digest = second.digest := by
    have hfirst := first.digest_eq
    rw [hsame, second.digest_eq] at hfirst
    exact (Except.ok.inj hfirst).symm
  cases first
  cases second
  cases hsame
  cases hdigest
  rfl

theorem call_comm {first second : AccountCall E} {key key' : ChildRunKey E}
    (hfirst : first.childKey = some key) (hsecond : second.childKey = some key') (hne : key ≠ key')
    {afterFirst afterSecond end₁ end₂ : ChildRunBudgetAccount E}
    (h₁ : account.call first = .ok afterFirst) (h₁' : afterFirst.call second = .ok end₁)
    (h₂ : account.call second = .ok afterSecond) (h₂' : afterSecond.call first = .ok end₂) :
    end₁ = end₂ := by
  have hperm₁ : end₁.children.Perm (second.edit (first.edit account.children)) :=
    (call_children_perm hsecond h₁').trans (AccountCall.edit_perm (call_children_perm hfirst h₁) _)
  have hperm₂ : end₂.children.Perm (first.edit (second.edit account.children)) :=
    (call_children_perm hfirst h₂').trans (AccountCall.edit_perm (call_children_perm hsecond h₂) _)
  have hperm : end₁.children.Perm end₂.children :=
    (hperm₁.trans (AccountCall.edit_comm account.children hfirst hsecond hne)).trans hperm₂.symm
  refine eq_of_perm ?_ hperm
  calc end₁.withChildren end₂.children
    _ = account.withChildren end₂.children := by
      rw [call_withChildren _ hsecond h₁', call_withChildren _ hfirst h₁]
    _ = end₂.withChildren end₂.children := by
      rw [call_withChildren _ hfirst h₂', call_withChildren _ hsecond h₂]

end ChildRunBudgetAccount

/-! ## Two reservations -/

namespace AccountTerms

variable {terms other : AccountTerms E}

/-- Terms whose sorted form is a sealed account are sealed as that account. -/
theorem sealed_of_ordered_eq {account : ChildRunBudgetAccount E}
    (h : terms.ordered = account.toAccountTerms) : terms.sealed = .ok account := by
  obtain ⟨_, digest, hsorted, hvalid, hdigest⟩ := account
  subst h
  simp only [sealed, attach_eq_ok]
  exact ⟨(), hvalid, digest, hdigest, rfl⟩

/-- What is written before the children. -/
def scopeJson (terms : AccountTerms E) : List (String × Json) :=
  [("version", .num (.int terms.version)), ("parent", terms.parent.toJson),
    ("parent_admission_digest", terms.parentAdmissionDigest.toJson),
    ("parent_admitted_at", E.timestampJson terms.parentAdmittedAt),
    ("graph", terms.graph.toJson), ("budget", terms.budget.toJson E),
    ("maximum_children", .num (.int terms.maximumChildren)),
    ("direct_head", terms.directHead.toJson E), ("direct_usage", terms.directUsage.toJson)]

theorem accountJson_eq (terms : AccountTerms E) (digest : Digest) :
    terms.accountJson digest = .obj (terms.scopeJson ++
      ("children", .arr (terms.children.map (·.toJson))) :: [("digest", digest.toJson)]) := rfl

variable {entry : ChildRunBudgetEntry E}

variable {entries : List (ChildRunBudgetEntry E)}

/-- An account with one child less is written in no more bytes. -/
theorem canonicalBytes_of_fewer (hE : E.WritesParts) (hperm : terms.children.Perm (entry :: entries))
    {digest : Digest} {bytes : List UInt8} (h : terms.canonicalBytes digest = .ok bytes) :
    ∃ shorter, { terms with children := entries }.canonicalBytes digest = .ok shorter := by
  simp only [canonicalBytes, Encoding.canonicalBytes, bind_eq_ok, mapError_eq_ok,
    reject_eq_ok, okOr_eq_ok, exists_const, pure_eq_ok,
    Bool.not_eq_true', Bool.not_eq_false, not_lt] at h ⊢
  obtain ⟨_, ⟨hijson, hbytes⟩, hfits, rfl⟩ := h
  have hitems : (terms.children.map (·.toJson)).Perm (entry.toJson :: entries.map (·.toJson)) :=
    hperm.map _
  rw [accountJson_eq] at hijson hbytes
  have hchildren : ∃ text, E.toVec (.arr (terms.children.map (·.toJson))) = some text := by
    obtain ⟨ordered, hordered, hobj⟩ := hE.obj (terms.scopeJson ++
      ("children", .arr (terms.children.map (·.toJson))) :: [("digest", digest.toJson)])
      (by simp [scopeJson])
    rw [hobj] at hbytes
    obtain ⟨whole, hwhole⟩ := exists_of_bracketed hbytes
      ("children", .arr (terms.children.map (·.toJson))) (hordered.mem_iff.mpr (by simp))
    obtain ⟨_, _, hvalue⟩ := Option.bind_eq_some_iff.mp hwhole
    obtain ⟨text, htext, _⟩ := Option.bind_eq_some_iff.mp hvalue
    exact ⟨text, htext⟩
  obtain ⟨text, htext⟩ := hchildren
  obtain ⟨fewer, hfewer, hle⟩ := hE.arr_le hitems htext
  obtain ⟨shorter, hshorter, hshort⟩ := hE.obj_le (by simp [scopeJson]) hbytes hfewer htext hle
  refine ⟨shorter, shorter, ⟨?_, hshorter⟩, hshort.trans hfits, rfl⟩
  rw [accountJson_eq]
  simp only [CanonicalJson.ijsonNumbers, CanonicalJson.ijsonMembers_iff] at hijson ⊢
  intro member hmember
  rcases List.mem_append.mp hmember with hmember | hmember
  · exact hijson member (List.mem_append_left _ hmember)
  rcases List.mem_cons.mp hmember with rfl | hmember
  · have hall := hijson ("children", .arr (terms.children.map (·.toJson))) (by simp)
    simp only [CanonicalJson.ijsonNumbers, CanonicalJson.ijsonItems_iff] at hall ⊢
    exact fun item hitem => hall item (hitems.mem_iff.mpr (List.mem_cons_of_mem _ hitem))
  · exact hijson member (List.mem_append_right _ (List.mem_cons_of_mem _ hmember))

/-- The entries of an account without one of them pass the same checks. -/
theorem Sound.of_fewer
    {entries' : List (ChildRunBudgetEntry E)} (hperm : entries'.Perm (entry :: entries))
    (h : terms.Sound entries') : terms.Sound entries := by
  have hmem : ∀ other ∈ entries, other ∈ entries' :=
    fun other hother => hperm.mem_iff.mpr (List.mem_cons_of_mem _ hother)
  have hdigests := ((hperm.map (·.key.digest)).nodup_iff.mp h.digests_nodup)
  have hruns := ((hperm.map (·.child.runId)).nodup_iff.mp h.runs_nodup)
  exact ⟨fun other hother => h.entries_valid other (hmem other hother),
    fun other hother => h.entries_inScope other (hmem other hother),
    (List.nodup_cons.mp hdigests).2, (List.nodup_cons.mp hruns).2,
    fun other hother => h.admitted other (hmem other hother)⟩

/-- Leaving out a child of a sealed account gives terms that can be sealed, as long as the
usage of the other ones adds up. -/
theorem sealed_of_fewer (hE : E.WritesParts) {account : ChildRunBudgetAccount E}
    (hperm : account.children.Perm (entry :: entries)) {observedAt : Timestamp}
    {rest : BudgetRemaining}
    (hrest : (account.withChildren entries).remaining observedAt = .ok rest) :
    ∃ next, (account.withChildren entries).sealed = .ok next := by
  have hordered : (account.withChildren entries).ordered =
      account.withChildren (sortByKey ChildRunBudgetEntry.keyDigest entries) := rfl
  have hsorted : (sortByKey ChildRunBudgetEntry.keyDigest entries).Perm entries :=
    sortByKey_perm _ _
  have hperm' : account.children.Perm
      (entry :: sortByKey ChildRunBudgetEntry.keyDigest entries) :=
    hperm.trans (hsorted.symm.cons entry)
  have hheader : (account.withChildren
      (sortByKey ChildRunBudgetEntry.keyDigest entries)).validateHeader = .ok () := by
    have hvalid := account.valid
    rw [validate, bind_eq_ok] at hvalid
    obtain ⟨_, hheader, _⟩ := hvalid
    simp only [validateHeader, bind_eq_ok, reject_eq_ok, exists_const, not_not, not_or,
      not_lt] at hheader ⊢
    have hfewer : (sortByKey ChildRunBudgetEntry.keyDigest entries).length ≤
        account.children.length := by
      rw [hperm'.length_eq]
      exact Nat.le_succ _
    exact ⟨hheader.1, ⟨hheader.2.1.1, hheader.2.1.2.1, hfewer.trans hheader.2.1.2.2⟩, hheader.2.2⟩
  have hsound : (account.withChildren
      (sortByKey ChildRunBudgetEntry.keyDigest entries)).Sound
      (sortByKey ChildRunBudgetEntry.keyDigest entries) := by
    obtain ⟨hvalid, hscope, hdigests, hruns, hadmitted⟩ := account.sound.of_fewer hperm'
    exact ⟨hvalid, hscope, hdigests, hruns, hadmitted⟩
  have haccounted : ∃ accounted, (account.withChildren
      (sortByKey ChildRunBudgetEntry.keyDigest entries)).accountedUsage = .ok accounted := by
    have hremains := AccountTerms.remaining_ordered.mpr hrest
    rw [hordered] at hremains
    simp only [remaining, bind_eq_ok, mapError_eq_ok] at hremains
    obtain ⟨_, _, accounted, haccounted, _⟩ := hremains
    exact ⟨accounted, haccounted⟩
  obtain ⟨accounted, haccounted⟩ := haccounted
  have hvalid : (account.withChildren entries).ordered.validate = .ok () := by
    rw [hordered]
    simp only [validate, bind_eq_ok, collect_acceptEntry_eq_ok, mapError_eq_ok]
    exact ⟨(), hheader, _, ⟨rfl, hsound⟩, accounted, haccounted, rfl⟩
  have hdigest : ∃ digest, (account.withChildren entries).ordered.computeDigest = .ok digest := by
    have hdigest := account.digest_eq
    simp only [computeDigest, bind_eq_ok] at hdigest
    obtain ⟨bytes, hbytes, _⟩ := hdigest
    obtain ⟨shorter, hshorter⟩ := canonicalBytes_of_fewer hE hperm' hbytes
    refine ⟨_, bind_eq_ok.mpr ⟨shorter, ?_, rfl⟩⟩
    rw [hordered]
    exact hshorter
  obtain ⟨digest, hdigest⟩ := hdigest
  simp only [sealed, attach_eq_ok]
  exact ⟨_, (), hvalid, digest, hdigest, rfl⟩

end AccountTerms

namespace ChildRunBudgetAccount

variable {account next : ChildRunBudgetAccount E} {observedAt : Timestamp}

/-- A new child is entered exactly when the checks pass, another child may be entered, its
reservation leaves something, and the account can be sealed. -/
theorem reserve_new_eq_ok {intent : ChildRunAdmissionIntent E} {graph : CompiledGraph E}
    (hnew : account.entry intent.key = none) :
    account.reserve intent graph observedAt = .ok next ↔
      account.validateReserve intent graph = .ok () ∧
      account.children.length < account.maximumChildren ∧
      ∃ entry, newEntry intent = .ok entry ∧
        (∃ rest, (account.withEntry entry).remaining observedAt = .ok rest) ∧
        (account.withEntry entry).sealed = .ok next := by
  simp only [reserve, hnew, bind_eq_ok, reject_eq_ok, exists_const, not_le]
  constructor
  · intro h
    obtain ⟨_, hchecks, hlength, entry, hentry, rest, hrest, hsealed⟩ := h
    exact ⟨hchecks, hlength, entry, hentry, ⟨rest, hrest⟩, hsealed⟩
  · intro h
    obtain ⟨hchecks, hlength, entry, hentry, ⟨rest, hrest⟩, hsealed⟩ := h
    exact ⟨(), hchecks, hlength, entry, hentry, rest, hrest, hsealed⟩

/-- Where two children are entered, something is left with the second one alone. -/
theorem remaining_of_fewer {first second : ChildRunBudgetEntry E} {rest : BudgetRemaining}
    (hfirst : first.settlement = none)
    (h : (account.withChildren (account.children ++ [first] ++ [second])).remaining observedAt =
      .ok rest) :
    ∃ rest', (account.withEntry second).remaining observedAt = .ok rest' := by
  have hperm : (account.children ++ [first] ++ [second]).Perm
      (first :: (account.children ++ [second])) := by
    rw [List.append_assoc]
    exact List.perm_middle
  have hcharges : (account.withChildren (account.children ++ [first] ++ [second])).charges.Perm
      (first.charge :: (account.withEntry second).charges) :=
    ((hperm.map ChildRunBudgetEntry.charge).cons _).trans (.swap _ _ _)
  obtain ⟨⟨hdirect, hclock⟩, hlength, _⟩ := AccountTerms.remaining_eq_ok.mp h
  have heval : (account.withEntry second).Evaluable observedAt := by
    refine ⟨⟨hdirect, fun settlement hsettlement => hclock settlement ?_⟩, ?_⟩
    · obtain ⟨holder, hholder, hsome⟩ := List.mem_filterMap.mp hsettlement
      exact List.mem_filterMap.mpr
        ⟨holder, hperm.mem_iff.mpr (List.mem_cons_of_mem _ hholder), hsome⟩
    · have hcount := ((hperm.filter (·.settlement.isNone)).map (·.reservation)).length_eq
      rw [List.filter_cons_of_pos (by simp [hfirst]), List.map_cons, List.length_cons] at hcount
      exact Nat.le_of_succ_le (hcount.symm.le.trans hlength)
  obtain ⟨hroom, _⟩ := remaining_of_exchange (account.withEntry second)
    (account.withEntry second).charges h rfl (fun total => totalOf_perm_iff hcharges)
    (fun total => exactTotals.zero_cons.symm) heval
  refine hroom.mp ⟨fun counter _ => Nat.zero_le _, fun counter _ => Nat.zero_le _,
    fun currency hcurrency => ?_, rfl⟩
  cases hcurrency

/-- A child that was not entered before another one was is not entered after that. -/
theorem entry_eq_none_of_reserve {intent : ChildRunAdmissionIntent E} {graph : CompiledGraph E}
    {key : ChildRunKey E} (hkey : account.entry key = none) (hne : intent.key ≠ key)
    (h : account.reserve intent graph observedAt = .ok next) : next.entry key = none := by
  have hperm : next.children.Perm
      ((AccountCall.reserve intent graph observedAt).edit account.children) :=
    call_children_perm rfl h
  by_contra hentry
  have hheld := (AccountCall.held_of_perm hperm).mp (held_iff.mpr hentry)
  refine held_iff.mp ?_ hkey
  rw [AccountCall.edit] at hheld
  split at hheld
  · exact hheld
  · exact (AccountCall.held_append_added hne).mp hheld

theorem children_perm_of_sealed {entry : ChildRunBudgetEntry E}
    (h : (account.withEntry entry).sealed = .ok next) :
    next.children.Perm (account.children ++ [entry]) := by
  rw [AccountTerms.sealed_eq_ok h]
  exact sortByKey_perm _ _

/-- Two new children that can be entered at one instant can be entered in the other order at
that instant. -/
theorem reserve_swap (hE : E.WritesParts) {first second : ChildRunAdmissionIntent E}
    {graph graph' : CompiledGraph E} {afterFirst both : ChildRunBudgetAccount E}
    (hfirst : account.entry first.key = none) (hsecond : account.entry second.key = none)
    (hne : first.key ≠ second.key)
    (h : account.reserve first graph observedAt = .ok afterFirst)
    (h' : afterFirst.reserve second graph' observedAt = .ok both) :
    ∃ afterSecond, account.reserve second graph' observedAt = .ok afterSecond ∧
      afterSecond.reserve first graph observedAt = .ok both := by
  obtain ⟨hchecks, _, one, hone, _, hsealed⟩ := (reserve_new_eq_ok hfirst).mp h
  obtain ⟨hchecks', hlength', two, htwo, ⟨rest, hrest⟩, hsealed'⟩ :=
    (reserve_new_eq_ok (entry_eq_none_of_reserve hsecond hne h)).mp h'
  have hperm := children_perm_of_sealed hsealed
  have hscope : ∀ children, afterFirst.withChildren children = account.withChildren children :=
    call_withChildren (.reserve first graph observedAt) rfl h
  have hscope' : ∀ children, both.withChildren children = account.withChildren children :=
    fun children => (call_withChildren (.reserve second graph' observedAt) rfl h'
      children).trans (hscope children)
  -- The account with both children, whatever their order.
  have hboth : both.children.Perm (account.children ++ [one] ++ [two]) :=
    (children_perm_of_sealed hsealed').trans (hperm.append_right _)
  have hremains : (account.withChildren (account.children ++ [one] ++ [two])).remaining
      observedAt = .ok rest := by
    have hafter : (account.withChildren (afterFirst.children ++ [two])).remaining observedAt =
        .ok rest := by
      rw [← hscope]
      exact hrest
    exact (AccountTerms.remaining_of_perm (account.withChildren
      (afterFirst.children ++ [two])) (hperm.append_right _).symm).mpr hafter
  obtain ⟨rest', hrest'⟩ := remaining_of_fewer (newEntry_eq_ok hone).2.2.2.2 hremains
  have hone' : both.children.Perm (one :: (account.children ++ [two])) := by
    rw [List.append_assoc] at hboth
    exact hboth.trans List.perm_middle
  obtain ⟨afterSecond, hafter⟩ := AccountTerms.sealed_of_fewer hE hone'
    (by rw [hscope']; exact hrest')
  rw [hscope'] at hafter
  have hcount := hperm.length_eq
  have hmaximum : afterFirst.maximumChildren = account.maximumChildren :=
    (reserve_evolves h).scope.maximumChildren
  rw [List.length_append, List.length_singleton] at hcount
  have hreserve : account.reserve second graph' observedAt = .ok afterSecond := by
    refine (reserve_new_eq_ok hsecond).mpr ⟨?_, by omega, two, htwo, ⟨rest', hrest'⟩, hafter⟩
    rw [← (reserve_evolves h).validateReserve_eq]
    exact hchecks'
  refine ⟨afterSecond, hreserve, ?_⟩
  have hperm' := children_perm_of_sealed hafter
  have hscope'' : ∀ children, afterSecond.withChildren children = account.withChildren children :=
    call_withChildren (.reserve second graph' observedAt) rfl hreserve
  have hswapped : (afterSecond.children ++ [one]).Perm both.children :=
    ((hperm'.append_right _).trans (by
      rw [List.append_assoc, List.append_assoc]
      exact (List.Perm.swap _ _ _).append_left _)).trans hboth.symm
  refine (reserve_new_eq_ok (entry_eq_none_of_reserve hfirst hne.symm hreserve)).mpr
    ⟨?_, ?_, one, hone, ⟨rest, ?_⟩, AccountTerms.sealed_of_ordered_eq ?_⟩
  · rw [(reserve_evolves hreserve).validateReserve_eq]
    exact hchecks
  · rw [hperm'.length_eq, List.length_append, List.length_singleton, ← hcount,
      (reserve_evolves hreserve).scope.maximumChildren, ← hmaximum]
    exact hlength'
  · show (afterSecond.withChildren (afterSecond.children ++ [one])).remaining observedAt = _
    rw [hscope'']
    exact (AccountTerms.remaining_of_perm (account.withChildren
      (account.children ++ [one] ++ [two])) (hswapped.trans hboth)).mpr hremains
  · have hsorted : sortByKey ChildRunBudgetEntry.keyDigest (afterSecond.children ++ [one]) =
        both.children := by
      rw [← both.sorted.sortByKey_eq]
      exact sortByKey_eq_of_perm hswapped
        (((hswapped.map _).nodup_iff).mpr both.sorted.nodup_keys)
    calc (afterSecond.withEntry one).ordered
      _ = afterSecond.withChildren (sortByKey ChildRunBudgetEntry.keyDigest
            (afterSecond.children ++ [one])) := rfl
      _ = both.withChildren both.children := by rw [hsorted, hscope'', hscope']

end ChildRunBudgetAccount

/-- Reservations and settlements of different children that are accepted in both orders end
in the identical account; and of two new children that are entered one after the other at
one instant, each could have come first. -/
theorem account_calls_commute :
    (∀ (account : ChildRunBudgetAccount E) (first second : AccountCall E) (key key'),
      first.childKey = some key → second.childKey = some key' → key ≠ key' →
      ∀ afterFirst afterSecond end₁ end₂ : ChildRunBudgetAccount E,
        account.call first = .ok afterFirst → afterFirst.call second = .ok end₁ →
        account.call second = .ok afterSecond → afterSecond.call first = .ok end₂ →
        end₁ = end₂) ∧
    (E.WritesParts → ∀ (account : ChildRunBudgetAccount E)
      (first second : ChildRunAdmissionIntent E) (graph graph' : CompiledGraph E)
      (observedAt : Timestamp) (afterFirst both : ChildRunBudgetAccount E),
      account.entry first.key = none → account.entry second.key = none →
      first.key ≠ second.key → account.reserve first graph observedAt = .ok afterFirst →
      afterFirst.reserve second graph' observedAt = .ok both →
      ∃ afterSecond, account.reserve second graph' observedAt = .ok afterSecond ∧
        afterSecond.reserve first graph observedAt = .ok both) := by
  refine ⟨?_, ?_⟩
  · intro account first second key key' hfirst hsecond hne afterFirst afterSecond end₁ end₂
      h₁ h₁' h₂ h₂'
    exact ChildRunBudgetAccount.call_comm hfirst hsecond hne h₁ h₁' h₂ h₂'
  · intro hE account first second graph graph' observedAt afterFirst both hfirst hsecond hne h h'
    exact ChildRunBudgetAccount.reserve_swap hE hfirst hsecond hne h h'

/-- Two children are entered in either order, with the same account in the end. -/
theorem account_calls_commute_two_children :
    ∃ (account afterFirst afterSecond both : ChildRunBudgetAccount .compact)
      (first second : ChildRunAdmissionIntent .compact) (graph : CompiledGraph .compact)
      (observedAt : Timestamp), first.key ≠ second.key ∧
      account.reserve first graph observedAt = .ok afterFirst ∧
      afterFirst.reserve second graph observedAt = .ok both ∧
      account.reserve second graph observedAt = .ok afterSecond ∧
      afterSecond.reserve first graph observedAt = .ok both := by
  obtain ⟨family⟩ := ChildBudget.Sample.nonempty_family
  obtain ⟨_, hreserves⟩ := @account_calls_commute .compact
  obtain ⟨afterSecond, hsecond, hfirst⟩ := hreserves Encoding.compact_writesParts family.account
    family.first family.second family.graph family.graph _ family.afterFirst family.both
    family.first_none family.second_none family.keys_ne family.reserve_first family.reserve_second
  exact ⟨_, _, afterSecond, _, _, _, _, _, family.keys_ne, family.reserve_first,
    family.reserve_second, hsecond, hfirst⟩

end StateKnot
