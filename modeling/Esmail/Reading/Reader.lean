/-
# The reading pane: which message is on screen, and may its images load

The UI half of showing a message: the selected header, the View toggle and the trusted senders
(`preferences.rs`, `links.rs`, `trust.rs`), the pane (`reader.rs`), the one slot the pane shares
with the render thread (`view.rs`), and the widget that submits render jobs (`widget.rs`).

A handler runs on the UI thread from start to end; the only thing it does that the render thread
can see is one write to the slot, or one job submitted at a paint, so a handler is one step.  A
page that is loaded carries the GHOST `allowed`: whether the View toggle was on or its sender
trusted when it was loaded.  No function of the source reads it.
-/
import Esmail.Mailbox.Header

namespace Esmail

open RustText

/-! ## 1. Trusted senders -/

/-- `address_of`: the address of `Name <user@host>` or `user@host`, lowercased. -/
def MailHeader.addressOf (sender : List Char) : Option (List Char) :=
  let sender := trim sender
  let addr := match rfind '<' sender, rfind '>' sender with
    | some opening, some closing =>
      if opening < closing then (sender.take closing).drop (opening + 1) else sender
    | _, _ => sender
  let addr := trim addr
  match splitOnce '@' addr with
  | none => none
  | some (localPart, domain) =>
    if localPart ≠ [] ∧ domain ≠ [] then some (addr.map toAsciiLowercase) else none

def MailHeader.senderAddress (h : MailHeader) : Option (List Char) :=
  MailHeader.addressOf h.sender.toList

/-- The part of `Config` that says whose images always load. -/
structure Config where
  imageTrustedSenders : List (List Char) := []
  deriving DecidableEq, Repr

namespace Config

def isImageTrusted (c : Config) (address : List Char) : Bool :=
  c.imageTrustedSenders.contains (address.map toAsciiLowercase)

/-- `set_image_trusted`: the new set, and whether it changed. -/
def setImageTrusted (c : Config) (address : List Char) (trusted : Bool) : Config × Bool :=
  let address := address.map toAsciiLowercase
  let present := c.imageTrustedSenders.contains address
  if trusted then
    if present then (c, false)
    else ({ c with imageTrustedSenders := address :: c.imageTrustedSenders }, true)
  else ({ c with imageTrustedSenders := c.imageTrustedSenders.filter (· != address) }, present)

end Config

/-- `sender_trusted`. -/
def senderTrusted (c : Config) (h : MailHeader) : Bool :=
  match h.senderAddress with
  | some address => c.isImageTrusted address
  | none => false

/-- `set_sender_trusted`. -/
def setSenderTrusted (c : Config) (h : MailHeader) (trusted : Bool) : Config × Bool :=
  match h.senderAddress with
  | some address => c.setImageTrusted address trusted
  | none => (c, false)

/-! ## 2. Pages and jobs -/

/-- `Content`: what the pane shows. -/
inductive Content
  | notice (text : String) (action : Option (String × String))
  | message (header : MailHeader) (body : String)
  deriving DecidableEq, Repr

def Content.isMessage : Content → Bool
  | notice _ _ => false
  | message _ _ => true

/-- A page that was loaded into the view: what its HTML was made from, and the ghost that says
whether its images were allowed at that moment. -/
structure Page where
  content : Content
  allowed : Bool
  deriving DecidableEq, Repr

/-- Whether fetching the page's remote images is no breach: its images were allowed when it was
loaded, or it is a notice of the program's own. -/
def Page.permitted (p : Page) : Bool := !p.content.isMessage || p.allowed

/-- `RenderJob`. -/
structure RenderJob where
  id : Nat
  page : Page
  width : Nat
  resetImages : Bool
  deriving DecidableEq, Repr

/-- The part of `HtmlWidget` that decides what is submitted. -/
structure HtmlWidget where
  page : Page
  submittedId : Nat := 0
  requestedWidth : Nat := 0
  resetImages : Bool := false
  dirty : Bool := true
  deriving DecidableEq, Repr

/-- `HtmlWidget::load`. -/
def HtmlWidget.load (w : HtmlWidget) (page : Page) : HtmlWidget :=
  { w with page := page, resetImages := true, dirty := true }

/-- `HtmlWidget::submit`: the job, whose id is also stored as the latest one. -/
def HtmlWidget.submit (w : HtmlWidget) (width : Nat) : HtmlWidget × RenderJob :=
  ({ w with
      submittedId := w.submittedId + 1
      resetImages := false
      requestedWidth := width
      dirty := false },
    { id := w.submittedId + 1, page := w.page, width := width, resetImages := w.resetImages })

/-! ## 3. The UI thread -/

/-- What the UI thread holds, with the slot it shares with the render thread: `fetcher` is
whether `images::fetch` is installed there. -/
structure Pane where
  /-- `App::remote_images`: View > Load remote images. -/
  toggle : Bool
  config : Config
  selected : Option MailHeader
  content : Content
  /-- `Reader::remote_images`. -/
  remoteImages : Bool
  fetcher : Bool
  widget : HtmlWidget
  deriving DecidableEq, Repr

namespace Pane

/-- Whether the images of what is shown may load, by the toggle and the sender's trust. -/
def mayLoad (p : Pane) (h : MailHeader) : Bool := p.toggle || senderTrusted p.config h

/-- The ghost of a page that is loaded now. -/
def allowedNow (p : Pane) : Bool :=
  match p.content with
  | .notice _ _ => false
  | .message h _ => p.mayLoad h

/-- `Reader::render`. -/
def render (p : Pane) : Pane := { p with widget := p.widget.load ⟨p.content, p.allowedNow⟩ }

/-- `Reader::set_remote_images`. -/
def setFetcher (p : Pane) (allow : Bool) : Pane :=
  if p.remoteImages = allow then p
  else { p with remoteImages := allow, fetcher := allow }.render

/-- `App::allow_images_for`. -/
def allowImagesFor (p : Pane) (h : MailHeader) : Pane := p.setFetcher (p.mayLoad h)

/-- `App::current_sender_trusted`. -/
def currentSenderTrusted (p : Pane) : Bool :=
  match p.content with
  | .notice _ _ => false
  | .message h _ => senderTrusted p.config h

/-- `App::select`: the pane goes on showing the old message until the body is there. -/
def select (p : Pane) (h : MailHeader) : Pane := { p with selected := some h }

/-- `Reader::show_notice`, `Reader::show_notice_with_link`. -/
def showNotice (p : Pane) (text : String) (action : Option (String × String)) : Pane :=
  { p with content := .notice text action }.render

/-- `Reader::show_message`. -/
def showMessage (p : Pane) (h : MailHeader) (body : String) : Pane :=
  { p with content := .message h body }.render

/-- `App::body_arrived`, for a body that is still wanted. -/
def bodyArrived (p : Pane) (body : String) : Pane :=
  match p.selected with
  | none => p
  | some h => (p.allowImagesFor h).showMessage h body

/-- `App::set_remote_images`. -/
def setRemoteImages (p : Pane) (allow : Bool) : Pane :=
  { p with toggle := allow }.setFetcher (allow || p.currentSenderTrusted)

/-- `App::trust_sender`. -/
def trustSender (p : Pane) (trusted : Bool) : Pane :=
  match p.content with
  | .notice _ _ => p
  | .message h _ =>
    { p with config := (setSenderTrusted p.config h trusted).1 }.allowImagesFor h

/-- `App::stop_remote_images`. -/
def stopRemoteImages (p : Pane) : Pane :=
  if p.currentSenderTrusted then p.trustSender false else p.setRemoteImages false

/-- The pane after `setup`, with the toggle and the trusted senders that were saved. -/
def atStart (toggle : Bool) (config : Config) : Pane :=
  ({ toggle := toggle, config := config, selected := none, content := .notice "" none,
     remoteImages := false, fetcher := false,
     widget := { page := ⟨.notice "" none, false⟩ } } : Pane).render.setFetcher toggle

/-! ## 4. What the handlers keep -/

/-- The slot is what the pane last decided, the page that is loaded is what is on screen, and for
a message both are its permission. -/
structure Consistent (p : Pane) : Prop where
  fetcher : p.fetcher = p.remoteImages
  page : p.widget.page.content = p.content
  message : ∀ h body, p.content = .message h body →
    p.remoteImages = p.mayLoad h ∧ p.widget.page.allowed = p.remoteImages

/-- What a page that is loaded may do is what the slot says. -/
theorem Consistent.permitted {p : Pane} (hc : Consistent p) (hf : p.fetcher = true) :
    p.widget.page.permitted = true := by
  unfold Page.permitted
  rw [hc.page]
  cases h : p.content with
  | notice _ _ => rfl
  | message hd body =>
    have hp := (hc.message hd body h).2
    rw [hp, ← hc.fetcher, hf]
    rfl

theorem render_consistent {p : Pane} (hf : p.fetcher = p.remoteImages)
    (hm : ∀ h body, p.content = .message h body → p.remoteImages = p.mayLoad h) :
    Consistent p.render := by
  refine ⟨hf, rfl, ?_⟩
  intro h body hcon
  have hcon' : p.content = .message h body := hcon
  refine ⟨hm h body hcon', ?_⟩
  simp only [render, HtmlWidget.load, allowedNow, hcon']
  exact (hm h body hcon').symm

/-- Setting the slot to what the message on screen is allowed. -/
theorem setFetcher_consistent {p : Pane} {allow : Bool} (hf : p.fetcher = p.remoteImages)
    (hpage : p.widget.page.content = p.content)
    (hallowed : ∀ h body, p.content = .message h body →
      p.widget.page.allowed = p.remoteImages ∧ allow = p.mayLoad h) :
    Consistent (p.setFetcher allow) := by
  unfold setFetcher
  split
  · rename_i heq
    refine ⟨hf, hpage, ?_⟩
    intro h body hcon
    obtain ⟨hal, hmay⟩ := hallowed h body hcon
    exact ⟨heq.trans hmay, hal⟩
  · exact render_consistent rfl fun h body hcon => (hallowed h body hcon).2

@[simp] theorem setFetcher_fetcher {p : Pane} (hf : p.fetcher = p.remoteImages) (allow : Bool) :
    (p.setFetcher allow).fetcher = allow := by
  unfold setFetcher
  split
  · rename_i heq
    rw [hf, heq]
  · rfl

theorem setFetcher_frame (p : Pane) (allow : Bool) :
    (p.setFetcher allow).toggle = p.toggle ∧ (p.setFetcher allow).config = p.config ∧
      (p.setFetcher allow).content = p.content ∧
      (p.setFetcher allow).remoteImages = allow ∧
      (p.setFetcher allow).widget.submittedId = p.widget.submittedId := by
  unfold setFetcher
  split
  · rename_i heq
    exact ⟨rfl, rfl, rfl, heq, rfl⟩
  · exact ⟨rfl, rfl, rfl, rfl, rfl⟩

theorem Consistent.select {p : Pane} (hc : Consistent p) (h : MailHeader) :
    Consistent (p.select h) := ⟨hc.fetcher, hc.page, hc.message⟩

theorem Consistent.showNotice {p : Pane} (hc : Consistent p) (text : String)
    (action : Option (String × String)) : Consistent (p.showNotice text action) := by
  refine render_consistent hc.fetcher ?_
  intro h body hcon
  exact absurd hcon (by simp)

theorem Consistent.rerender {p : Pane} (hc : Consistent p) : Consistent p.render :=
  render_consistent hc.fetcher fun h body hcon => (hc.message h body hcon).1

/-- The permission is set for the new message while the old one is still on screen; that page is
replaced before the handler ends. -/
theorem Consistent.bodyArrived {p : Pane} (hc : Consistent p) (body : String) :
    Consistent (p.bodyArrived body) := by
  unfold Pane.bodyArrived
  split
  · exact hc
  · rename_i h _
    obtain ⟨htoggle, hconfig, -, hremote, -⟩ := setFetcher_frame p (p.mayLoad h)
    refine render_consistent ?_ ?_
    · exact (setFetcher_fetcher hc.fetcher _).trans hremote.symm
    · intro h' body' hcon
      obtain ⟨rfl, -⟩ := Content.message.inj hcon
      show (p.setFetcher (p.mayLoad h)).remoteImages =
        ((p.setFetcher (p.mayLoad h)).toggle || senderTrusted (p.setFetcher (p.mayLoad h)).config h)
      rw [hremote, htoggle, hconfig]
      rfl

theorem Consistent.setRemoteImages {p : Pane} (hc : Consistent p) (allow : Bool) :
    Consistent (p.setRemoteImages allow) := by
  refine setFetcher_consistent hc.fetcher hc.page ?_
  intro h body hcon
  have hcon' : p.content = .message h body := hcon
  exact ⟨(hc.message h body hcon').2, by simp [currentSenderTrusted, hcon', mayLoad]⟩

theorem Consistent.trustSender {p : Pane} (hc : Consistent p) (trusted : Bool) :
    Consistent (p.trustSender trusted) := by
  unfold Pane.trustSender
  split
  · exact hc
  · rename_i h body hcon
    refine setFetcher_consistent hc.fetcher hc.page ?_
    intro h' body' hcon'
    obtain ⟨rfl, -⟩ := Content.message.inj (hcon.symm.trans hcon')
    exact ⟨(hc.message h body hcon).2, rfl⟩

theorem Consistent.stopRemoteImages {p : Pane} (hc : Consistent p) :
    Consistent p.stopRemoteImages := by
  unfold Pane.stopRemoteImages
  split
  · exact hc.trustSender false
  · exact hc.setRemoteImages false

theorem atStart_consistent (toggle : Bool) (config : Config) :
    Consistent (atStart toggle config) := by
  refine setFetcher_consistent rfl rfl ?_
  intro h body hcon
  exact absurd hcon (by simp [render])

end Pane

end Esmail
