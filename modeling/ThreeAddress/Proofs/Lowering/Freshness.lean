import ThreeAddress.Proofs.Lowering.Events
import ThreeAddress.Proofs.Lowering.Parts
import ThreeAddress.Proofs.Lowering.Sessions
import ThreeAddress.Proofs.Lowering.SingleUse

/-!
# Numbers are never given out again

A session answers one request after another from one supply. A request that fails at some call has
taken what comes before that call, and the session goes on with what is left. So the numbers in the
code of one answer never occur in the code of another, the supply only ever moves on, and the string
constants that are registered stay as they are.
-/

namespace ThreeAddress

open LowerM

namespace Supply

/-- The temporary that is taken next. -/
def nextTemporary (supply : Supply) : Temporary := .numbered supply.temporaries

/-- The label that is taken next. -/
def nextLabel (supply : Supply) : Label := .numbered supply.labels

/-- The texts that events register, under the numbers that are taken for them. -/
def registered (supply : Supply) : List LoweringEvent → List (Temporary × String)
  | [] => []
  | .string text :: rest =>
    (supply.nextTemporary, text) :: (supply.afterString text).registered rest
  | event :: rest => (supply.afterEvent event).registered rest

/-- A string constant has the number of a temporary that was taken. -/
theorem Numbers.toNat_lt {supply : Supply} (h : supply.Numbers) {id : Temporary} {text : String}
    (hfound : supply.strings.find? id = some text) : id.id.toNat < supply.temporaries := by
  obtain ⟨entry, hentry, -⟩ := Option.map_eq_some_iff.mp hfound
  have hid := List.find?_some hentry
  obtain rfl : entry.1 = id := of_decide_eq_true hid
  exact h entry (List.mem_of_find?_eq_some hentry)

/-- As long as the numbers do not run out, registering a text adds one string constant. -/
theorem Numbers.find?_afterString {supply : Supply} (h : supply.Numbers) {added : String}
    (hfit : supply.temporaries < 2 ^ 32) {id : Temporary} {text : String} :
    (supply.afterString added).strings.find? id = some text ↔
      supply.strings.find? id = some text ∨ (id, text) = (supply.nextTemporary, added) := by
  rw [Supply.afterString, nextTemporary, Prod.mk.injEq]
  by_cases heq : id = .numbered supply.temporaries
  · subst heq
    -- the number is above all that are in use, so no text is replaced
    have hunused : supply.strings.find? (.numbered supply.temporaries) ≠ some text := by
      intro hfound
      have hlt : (UInt32.ofNat supply.temporaries).toNat < supply.temporaries := h.toNat_lt hfound
      rw [UInt32.toNat_ofNat_of_lt' hfit] at hlt
      exact Nat.lt_irrefl _ hlt
    simp [StringPool.find?_insert_self, hunused, eq_comm]
  · simp [StringPool.find?_insert_of_ne _ _ heq, heq]

/-- As long as the numbers do not run out, the string constants behind events are those before them
and those that the events register. -/
theorem Numbers.find?_afterEvents {supply : Supply} (h : supply.Numbers)
    {events : List LoweringEvent} (hfit : (supply.afterEvents events).temporaries ≤ 2 ^ 32)
    {id : Temporary} {text : String} :
    (supply.afterEvents events).strings.find? id = some text ↔
      supply.strings.find? id = some text ∨ (id, text) ∈ supply.registered events := by
  induction events generalizing supply with
  | nil => exact (or_iff_left List.not_mem_nil).symm
  | cons event rest ih =>
    cases event with
    | lookup => exact ih h hfit
    | temporary => exact ih (h.of_drawn (.temporary .refl)) hfit
    | label => exact ih (h.of_drawn (.label .refl)) hfit
    | string added =>
      have hgrow := ((supply.afterString added).drawn_afterEvents rest).temporaries_le
      have hlt : supply.temporaries < 2 ^ 32 := hgrow.trans hfit
      rw [registered, List.mem_cons, ← or_assoc, ← h.find?_afterString hlt]
      exact ih (h.afterString added) hfit

/-- A string constant keeps its text, as long as the numbers do not run out. -/
theorem Numbers.find?_of_drawn {first second : Supply} (h : first.Numbers)
    (hdrawn : first.Drawn second) (hfit : second.temporaries ≤ 2 ^ 32) {id : Temporary}
    {text : String} (hfound : first.strings.find? id = some text) :
    second.strings.find? id = some text := by
  have hnumbered : Temporary.numbered id.id.toNat = id :=
    congrArg Temporary.mk UInt32.ofNat_toNat
  have hkept := hdrawn.find?_strings_eq hfit id.id.toNat_lt (.inl (h.toNat_lt hfound))
  rw [← hfound, ← hnumbered, hkept]

section Drawn

variable {first second : Supply}

/-- The next temporary never falls back, as long as the numbers do not run out. -/
theorem Drawn.nextTemporary_le (h : first.Drawn second) (hfit : second.temporaries < 2 ^ 32) :
    first.nextTemporary.id ≤ second.nextTemporary.id := by
  have hgrow := h.temporaries_le
  exact (UInt32.ofNat_le_iff_le (hgrow.trans_lt hfit) hfit).mpr hgrow

/-- The next label never falls back, as long as the numbers do not run out. -/
theorem Drawn.nextLabel_le (h : first.Drawn second) (hfit : second.labels < 2 ^ 32) :
    first.nextLabel.id ≤ second.nextLabel.id := by
  have hgrow := h.labels_le
  exact (UInt32.ofNat_le_iff_le (hgrow.trans_lt hfit) hfit).mpr hgrow

end Drawn

/-- A temporary is among those taken between two supplies if it was taken between them. -/
theorem mem_taken_iff {before after : Supply} {id : Temporary} :
    id ∈ before.taken after ↔ before.Took after id := by
  rw [taken, List.mem_map]
  simp only [List.mem_range'_1]
  constructor
  · rintro ⟨number, hrange, rfl⟩
    exact ⟨number, by omega, by omega, rfl⟩
  · rintro ⟨number, hle, hlt, rfl⟩
    exact ⟨number, by omega, rfl⟩

/-- Numbers and labels that were taken between two supplies, each of them once. -/
structure Fresh (before : Supply) (numbers : List Temporary) (labels : List Label)
    (after : Supply) : Prop where
  drawn : before.Drawn after
  took : ∀ id ∈ numbers, before.Took after id
  nodup : after.temporaries ≤ 2 ^ 32 → numbers.Nodup
  tookLabel : ∀ label ∈ labels, before.TookLabel after label
  nodup_labels : after.labels ≤ 2 ^ 32 → labels.Nodup

namespace Fresh

variable {first second third : Supply} {numbers others : List Temporary} {labels more : List Label}

/-- What is taken need not be used. -/
theorem nothing (h : first.Drawn second) : Fresh first [] [] second where
  drawn := h
  took := by simp
  nodup _ := List.nodup_nil
  tookLabel := by simp
  nodup_labels _ := List.nodup_nil

/-- What was taken in two stretches was taken in one, and nothing of it twice. -/
theorem append (h : Fresh first numbers labels second) (h' : Fresh second others more third) :
    Fresh first (numbers ++ others) (labels ++ more) third where
  drawn := h.drawn.trans h'.drawn
  took id hmem :=
    (List.mem_append.mp hmem).elim
      (fun hmem => (h.took id hmem).mono (Nat.le_refl _) h'.drawn.temporaries_le)
      (fun hmem => (h'.took id hmem).mono h.drawn.temporaries_le (Nat.le_refl _))
  nodup hfit := by
    have hgrow := h'.drawn.temporaries_le
    refine List.nodup_append.mpr ⟨h.nodup (hgrow.trans hfit), h'.nodup hfit, ?_⟩
    rintro id hmem _ hmem' rfl
    exact (h.took id hmem).not_later hfit hgrow (h'.took id hmem')
  tookLabel label hmem :=
    (List.mem_append.mp hmem).elim
      (fun hmem => (h.tookLabel label hmem).mono (Nat.le_refl _) h'.drawn.labels_le)
      (fun hmem => (h'.tookLabel label hmem).mono h.drawn.labels_le (Nat.le_refl _))
  nodup_labels hfit := by
    have hgrow := h'.drawn.labels_le
    refine List.nodup_append.mpr ⟨h.nodup_labels (hgrow.trans hfit), h'.nodup_labels hfit, ?_⟩
    rintro label hmem _ hmem' rfl
    exact (h.tookLabel label hmem).not_later hfit hgrow (h'.tookLabel label hmem')

end Fresh

end Supply

namespace Storage

/-- The number of a temporary. -/
def temporary? : Storage → Option Temporary
  | .temporary id => some id
  | _ => none

/-- The number of a string constant. -/
def string? : Storage → Option Temporary
  | .string id => some id
  | _ => none

/-- Only a temporary has its number. -/
theorem temporary?_eq_some_iff {place : Storage} {id : Temporary} :
    place.temporary? = some id ↔ place = .temporary id := by
  cases place <;> simp [temporary?]

/-- Only a string constant has its number. -/
theorem string?_eq_some_iff {place : Storage} {id : Temporary} :
    place.string? = some id ↔ place = .string id := by
  cases place <;> simp [string?]

/-- A number occurs as often as the only place that has it. -/
theorem count_filterMap {number? : Storage → Option Temporary} {place : Storage} {id : Temporary}
    (h : ∀ {other}, number? other = some id ↔ other = place) (places : List Storage) :
    (places.filterMap number?).count id = places.count place := by
  rw [List.count_filterMap, List.count_eq_countP]
  exact List.countP_congr fun other _ => by simpa using h

end Storage

/-- The numbers of the temporaries that some code writes, and of the string constants that it uses
or that are still to be used. -/
def Code.numbers (code : Code) (pending : List Storage) : List Temporary :=
  code.destinations.filterMap Storage.temporary? ++
    (Code.operands code ++ pending).filterMap Storage.string?

section Accounted

variable {before after : Supply} {code : Code} {pending : List Storage}

/-- The numbers in some code are those that were taken for it. -/
theorem Accounted.numbers_perm_taken (h : Accounted before code pending after) :
    (code.numbers pending).Perm (before.taken after) := by
  refine List.perm_iff_count.mpr fun id => ?_
  rw [Code.numbers, List.count_append, Storage.count_filterMap Storage.temporary?_eq_some_iff,
    Storage.count_filterMap Storage.string?_eq_some_iff]
  exact h.taken id

/-- The numbers and labels in some code are fresh if they are those that were taken for it. -/
theorem Accounted.fresh (h : Accounted before code pending after)
    (hlabels : Labelled before code after) :
    before.Fresh (code.numbers pending) code.labels after where
  drawn := h.drawn
  took _ hmem := Supply.mem_taken_iff.mp (h.numbers_perm_taken.mem_iff.mp hmem)
  nodup hfit := h.numbers_perm_taken.nodup_iff.mpr (Supply.nodup_taken hfit)
  tookLabel := hlabels.took
  nodup_labels := hlabels.nodup

end Accounted

namespace LoweringSession

/-- What happens while something is lowered, if nothing is refused. -/
def Request.events (env : Environment) : Request → List LoweringEvent
  | .expr value => value.events env
  | .stmt value => value.events env
  | .implementation value => value.body.events env

/-- The numbers in the code of an answer; the place of its value counts, where it is a string
constant. -/
def Answer.numbers : Answer → List Temporary
  | .ok (code, place?) => code.numbers place?.toList
  | .error _ => []

/-- The labels in the code of an answer. -/
def Answer.labels : Answer → List Label
  | .ok (code, _) => code.labels
  | .error _ => []

section Step

variable (session : LoweringSession)

/-- The environment that a request is lowered in. -/
def environment : Request → Environment
  | .expr _ | .stmt _ => session.env
  | .implementation value => .inside session.env.scope value.name

/-- What happens while a request is answered, as far as lowering gets. -/
def reached (request : Request) : List LoweringEvent :=
  (session.environment request).reached (request.events (session.environment request))

/-- The step of lowering that answers a request. -/
def step : Request → LowerM (Code × Option Storage)
  | .expr value => do
    let (code, place) ← ThreeAddress.lowerExpr session.env value
    return (code, some place)
  | .stmt value => return (← ThreeAddress.lowerStmt session.env value, none)
  | .implementation value =>
    return (← ThreeAddress.lowerImplementation session.env.scope value, none)

/-- A request is answered by running its step. -/
theorem runOn_step (request : Request) :
    (session.step request).runOn session.supply =
      ((session.answer request).1, (session.answer request).2.supply) := by
  cases request with
  | expr value =>
    rw [step, runOn_bind, answer, lowerExpr]
    rcases (ThreeAddress.lowerExpr session.env value).runOn session.supply with ⟨_ | _, _⟩ <;> rfl
  | stmt value =>
    rw [step, runOn_bind, answer, lowerStmt]
    rcases (ThreeAddress.lowerStmt session.env value).runOn session.supply with ⟨_ | _, _⟩ <;> rfl
  | implementation value =>
    rw [step, runOn_bind, answer, lowerImplementation]
    rcases (ThreeAddress.lowerImplementation session.env.scope value).runOn session.supply
      with ⟨_ | _, _⟩ <;> rfl

/-- The step that answers a request follows its events. -/
theorem follows_step (request : Request) :
    (session.step request).Follows (session.environment request)
      (request.events (session.environment request)) := by
  cases request with
  | expr value => exact (follows_lowerExpr _ value).bind_pure fun _ => follows_pure _
  | stmt value => exact (follows_lowerStmt _ value).bind_pure fun _ => follows_pure _
  | implementation value =>
    exact (follows_lowerImplementation _ value).bind_pure fun _ => follows_pure _

/-- The numbers and labels in the code that a step yields are fresh. -/
theorem fresh_of_step {request : Request} {before after : Supply} {code : Code}
    {place? : Option Storage}
    (h : (session.step request).Yields before (code, place?) after) :
    before.Fresh (code.numbers place?.toList) code.labels after := by
  cases request with
  | expr value =>
    obtain ⟨⟨code, place⟩, middle, hcode, hresult⟩ := yields_bind_iff.mp h
    obtain ⟨⟨⟩, rfl⟩ := yields_pure_iff.mp hresult
    exact (accounted_of_lowerExpr hcode).fresh (straightLine_of_yields hcode).labelled
  | stmt value =>
    obtain ⟨code, middle, hcode, hresult⟩ := yields_bind_iff.mp h
    obtain ⟨⟨⟩, rfl⟩ := yields_pure_iff.mp hresult
    exact (accounted_of_lowerStmt hcode).fresh (labelled_of_lowerStmt hcode)
  | implementation value =>
    obtain ⟨code, middle, hcode, hresult⟩ := yields_bind_iff.mp h
    obtain ⟨⟨⟩, rfl⟩ := yields_pure_iff.mp hresult
    exact (accounted_of_lowerImplementation hcode).fresh (labelled_of_lowerImplementation hcode)

/-- Answering a request takes what happens as far as lowering gets, whether it fails or not. -/
theorem supply_answer (request : Request) :
    (session.answer request).2.supply = session.supply.afterEvents (session.reached request) := by
  have hsupply := (session.follows_step request session.supply).1
  rwa [runOn_step] at hsupply

/-- The numbers and labels in the code of an answer are fresh, whether there is code or not. -/
theorem fresh_answer (request : Request) :
    session.supply.Fresh (session.answer request).1.numbers (session.answer request).1.labels
      (session.answer request).2.supply := by
  have hrun := session.runOn_step request
  cases hresult : (session.answer request).1 with
  | ok result => exact session.fresh_of_step (hrun.trans (by rw [hresult]))
  | error cause =>
    -- numbers have been taken, but there is no code that they occur in
    rw [supply_answer]
    exact .nothing (session.supply.drawn_afterEvents _)

end Step

section Run

variable (session : LoweringSession)

/-- The session that a list of requests leaves. -/
def after (requests : List Request) : LoweringSession :=
  requests.foldl (fun session request => (session.answer request).2) session

/-- Requests follow one another. -/
theorem after_append (requests rest : List Request) :
    session.after (requests ++ rest) = (session.after requests).after rest :=
  List.foldl_append

/-- The numbers and labels in the code of a list of answers are fresh. -/
theorem fresh_answers (requests : List Request) :
    session.supply.Fresh ((session.answers requests).flatMap Answer.numbers)
      ((session.answers requests).flatMap Answer.labels) (session.after requests).supply := by
  induction requests generalizing session with
  | nil => exact .nothing .refl
  -- the rest is answered by the session that the first request leaves
  | cons request rest ih => exact (session.fresh_answer request).append (ih _)

/-- Further requests only draw from the supply of a session. -/
theorem drawn_of_isPrefix {earlier later : List Request} (h : earlier <+: later) :
    (session.after earlier).supply.Drawn (session.after later).supply := by
  obtain ⟨rest, rfl⟩ := h
  rw [after_append]
  exact (fresh_answers _ rest).drawn

/-- A further request takes what happens as far as lowering gets. -/
theorem supply_after_concat (earlier : List Request) (request : Request) :
    (session.after (earlier ++ [request])).supply =
      (session.after earlier).supply.afterEvents ((session.after earlier).reached request) := by
  rw [after_append]
  exact supply_answer _ request

/-- The string constants of a session have the numbers of temporaries that were taken. -/
theorem numbers_after (scope : Scope) (requests : List Request) :
    ((start scope).after requests).supply.Numbers :=
  Supply.numbers_full.of_drawn ((start scope).drawn_of_isPrefix List.nil_prefix)

end Run

/-- As long as the numbers do not run out, the code of the answers of a session has no number twice
and no label twice, be it in one answer or in two. The supply never falls back and never loses or
changes a string constant, whichever requests fail. The string constants that a request adds are
those whose texts it registers as far as lowering gets. -/
theorem numbers_never_reused (scope : Scope) (requests : List Request)
    (htemporaries : ((start scope).after requests).supply.temporaries < 2 ^ 32)
    (hlabels : ((start scope).after requests).supply.labels < 2 ^ 32) :
    let answers := (start scope).answers requests
    let supply := fun earlier => ((start scope).after earlier).supply
    (answers.flatMap Answer.numbers).Nodup ∧ (answers.flatMap Answer.labels).Nodup ∧
      (∀ earlier later, earlier <+: later → later <+: requests →
        (supply earlier).nextTemporary.id ≤ (supply later).nextTemporary.id ∧
        (supply earlier).nextLabel.id ≤ (supply later).nextLabel.id ∧
        ∀ id text, (supply earlier).strings.find? id = some text →
          (supply later).strings.find? id = some text) ∧
      ∀ earlier request, earlier ++ [request] <+: requests → ∀ id text,
        (supply (earlier ++ [request])).strings.find? id = some text ↔
          (supply earlier).strings.find? id = some text ∨
            (id, text) ∈ (supply earlier).registered
              (((start scope).after earlier).reached request) := by
  intro answers supply
  have hfresh : Supply.full.Fresh (answers.flatMap Answer.numbers)
      (answers.flatMap Answer.labels) (supply requests) := (start scope).fresh_answers requests
  have hdrawn : ∀ {earlier later}, earlier <+: later → (supply earlier).Drawn (supply later) :=
    (start scope).drawn_of_isPrefix
  refine ⟨hfresh.nodup htemporaries.le, hfresh.nodup_labels hlabels.le, ?kept, ?added⟩
  case kept =>
    intro earlier later hearlier hlater
    have hfit := (hdrawn hlater).temporaries_le.trans_lt htemporaries
    have hfitLabels := (hdrawn hlater).labels_le.trans_lt hlabels
    exact ⟨(hdrawn hearlier).nextTemporary_le hfit, (hdrawn hearlier).nextLabel_le hfitLabels,
      fun id text => (numbers_after scope earlier).find?_of_drawn (hdrawn hearlier) hfit.le⟩
  case added =>
    intro earlier request hprefix id text
    have hfit := (hdrawn hprefix).temporaries_le.trans htemporaries.le
    have hanswer : supply (earlier ++ [request]) = (supply earlier).afterEvents _ :=
      (start scope).supply_after_concat earlier request
    rw [hanswer] at hfit ⊢
    exact (numbers_after scope earlier).find?_afterEvents hfit

/-- Requests of which two fail, one of them inside the arguments of a call, behind a string that is
lowered. -/
def interrupted : List Request :=
  [.expr (.binary .add (.input .int) (.call "f" [.literal (.string "kept"), .call "g" []])),
    .implementation failing, .stmt (.loop (.scalar "a") (.print (.literal (.string "again")))),
    .implementation finishing, .expr (.call "h" []), .stmt (.ifThen (.input .int) .empty)]

/-- The requests that succeed get different numbers and labels, and the string of the one that fails
first is there to the end. -/
theorem interrupted_never_reused :
    let session := start covering.env.scope
    let answers := session.answers interrupted
    let supply := (session.after interrupted).supply
    supply.temporaries < 2 ^ 32 ∧ supply.labels < 2 ^ 32 ∧
      answers.map Except.isOk = [false, false, true, true, true, true] ∧
      answers.flatMap Answer.numbers = [3, 4, 5, 6].map .numbered ∧
      (answers.flatMap Answer.numbers).Nodup ∧
      answers.flatMap Answer.labels = [0, 1, 2].map .numbered ∧
      (answers.flatMap Answer.labels).Nodup ∧
      supply.strings.find? (.numbered 1) = some "kept" := by
  have htemporaries :
      ((start covering.env.scope).after interrupted).supply.temporaries < 2 ^ 32 := by decide
  have hlabels : ((start covering.env.scope).after interrupted).supply.labels < 2 ^ 32 := by decide
  obtain ⟨hnumbers, hlabelled, hkept, hadded⟩ :=
    numbers_never_reused covering.env.scope interrupted htemporaries hlabels
  have hfirst := (hadded [] _ ⟨interrupted.tail, rfl⟩ (.numbered 1) "kept").mpr (.inr (by decide))
  obtain ⟨-, -, htexts⟩ := hkept [_] interrupted ⟨interrupted.tail, rfl⟩ List.prefix_rfl
  exact ⟨htemporaries, hlabels, rfl, rfl, hnumbers, rfl, hlabelled, htexts _ _ hfirst⟩

end LoweringSession

end ThreeAddress
