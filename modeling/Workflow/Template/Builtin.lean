import Workflow.Template.Basic

/-!
# Templates that come with the library

Their identifiers never change.  A field of the occasion on which an automation
runs is referred to by its path between double braces.
-/

namespace Workflow.Template

/-- A reference to a field of the occasion, which is filled in on execution. -/
def fill (path : String) : String := "\x7b\x7bcontext." ++ path ++ "\x7d\x7d"

def leadNurture : Template where
  id := Uuid.ofNat 0x54D22B6F772D527086B1488658D7631B
  slug := .text "lead-nurture"
  name := .text "Lead Nurture: welcome + follow-up"
  description := .text ("Greets new leads, follows up if there is no reply and creates a call "
    ++ "task.")
  category := .text "sales"
  recommended := true
  trigger := .event "lead.created"
  graph :=
    ⟨[
      ⟨"n1", .action, "Send welcome email",
        [("action_kind", .text "email.send"),
         ("to", .text (fill "payload.new.email")),
         ("subject", .text ("Welcome, " ++ fill "payload.new.first_name")),
         ("body", .text ("Hi " ++ fill "payload.new.first_name"
           ++ ", thanks for your interest. Quick question: what is your current "
           ++ "sales stack?"))]⟩,
      ⟨"d1", .delay, "Wait 3 days", [("duration_ms", .int 259200000)]⟩,
      ⟨"c1", .condition, "Replied?",
        [("expr", .text (fill "payload.new.replied" ++ " == true"))]⟩,
      ⟨"n2", .action, "Send follow-up",
        [("action_kind", .text "email.send"),
         ("to", .text (fill "payload.new.email")),
         ("subject", .text "Just checking in"),
         ("body", .text ("Hi " ++ fill "payload.new.first_name" ++ ", did you get my note?"))]⟩,
      ⟨"n3", .action, "Create call task",
        [("action_kind", .text "task.create"),
         ("title", .text ("Call " ++ fill "payload.new.first_name")),
         ("due_date", .text (fill "event.occurred_at")),
         ("priority", .text "High"),
         ("contact_id", .text (fill "subject_id"))]⟩],
     [⟨"n1", "d1", none⟩, ⟨"d1", "c1", none⟩, ⟨"c1", "n2", some "false"⟩,
      ⟨"c1", "n3", some "false"⟩]⟩

def dealSlaEscalation : Template where
  id := Uuid.ofNat 0x85AD74BF1A2C5CD59556969DA54F9E3E
  slug := .text "deal-sla-escalation"
  name := .text "Deal stuck SLA escalation"
  description := .text ("If a deal sits in 'Qualified' for 7 days, nudge the owner, create a "
    ++ "task and move the deal forward.")
  category := .text "sales"
  recommended := true
  trigger := .event "deal.stage_changed"
  graph :=
    ⟨[
      ⟨"d1", .delay, "Wait 7 days", [("duration_ms", .int 604800000)]⟩,
      ⟨"c1", .condition, "Still qualified?",
        [("expr", .text (fill "payload.new.stage" ++ " == \"Qualified\""))]⟩,
      ⟨"n1", .action, "Nudge owner",
        [("action_kind", .text "email.send"),
         ("to", .text (fill "payload.new.owner_email")),
         ("subject", .text ("Deal idle: " ++ fill "payload.new.title")),
         ("body", .text "Deal has been in Qualified for 7+ days.")]⟩,
      ⟨"n2", .action, "Create escalation task",
        [("action_kind", .text "task.create"),
         ("title", .text ("Escalate " ++ fill "payload.new.title")),
         ("due_date", .text (fill "event.occurred_at")),
         ("deal_id", .text (fill "subject_id")),
         ("priority", .text "High")]⟩,
      ⟨"n3", .action, "Move to proposal",
        [("action_kind", .text "deal.update_stage"),
         ("deal_id", .text (fill "subject_id")),
         ("stage", .text "Proposal")]⟩],
     [⟨"d1", "c1", none⟩, ⟨"c1", "n1", some "true"⟩, ⟨"c1", "n2", some "true"⟩,
      ⟨"c1", "n3", some "true"⟩]⟩

def invoiceReminders : Template where
  id := Uuid.ofNat 0x389E155D5E5758338AEE50C30E4664C0
  slug := .text "invoice-reminders"
  name := .text "Invoice reminder & paylink"
  description := .text ("Remind 3 days before due, on the due date, and 5 days after with a "
    ++ "payment link.")
  category := .text "finance"
  recommended := false
  trigger := .event "invoice.created"
  graph :=
    ⟨[
      ⟨"d1", .delay, "3 days before due", [("duration_ms", .int 259200000)]⟩,
      ⟨"n1", .action, "Upcoming invoice email",
        [("action_kind", .text "email.send"),
         ("to", .text (fill "payload.new.contact_email")),
         ("subject", .text ("Upcoming invoice " ++ fill "payload.new.number")),
         ("body", .text ("Amount: " ++ fill "payload.new.total" ++ ". Due "
           ++ fill "payload.new.due_date" ++ "."))]⟩,
      ⟨"d2", .delay, "On due date", [("duration_ms", .int 86400000)]⟩,
      ⟨"n2", .action, "Due today email",
        [("action_kind", .text "email.send"),
         ("to", .text (fill "payload.new.contact_email")),
         ("subject", .text ("Invoice due today " ++ fill "payload.new.number")),
         ("body", .text ("Please pay here: " ++ fill "payload.new.pay_url"))]⟩,
      ⟨"d3", .delay, "5 days after due", [("duration_ms", .int 432000000)]⟩,
      ⟨"c1", .condition, "Paid?",
        [("expr", .text (fill "payload.new.status" ++ " == \"Paid\""))]⟩,
      ⟨"n3", .action, "Overdue email",
        [("action_kind", .text "email.send"),
         ("to", .text (fill "payload.new.contact_email")),
         ("subject", .text ("Overdue invoice " ++ fill "payload.new.number")),
         ("body", .text ("Your secure payment link: " ++ fill "payload.new.pay_url"))]⟩],
     [⟨"d1", "n1", none⟩, ⟨"n1", "d2", none⟩, ⟨"d2", "n2", none⟩, ⟨"n2", "d3", none⟩,
      ⟨"d3", "c1", none⟩, ⟨"c1", "n3", some "false"⟩]⟩

def orderConfirmation : Template where
  id := Uuid.ofNat 0x9A8E03EFD9EC52D7859BCA98F4DF6A8F
  slug := .text "order-confirmation"
  name := .text "Confirm order: pro forma + stock"
  description := .text "When a sales order is confirmed, create a pro forma and reserve stock."
  category := .text "operations"
  recommended := false
  trigger := .event "sales_order.confirmed"
  graph :=
    ⟨[
      ⟨"n1", .action, "Create pro forma",
        [("action_kind", .text "proforma.create"),
         ("sales_order_id", .text (fill "subject_id")),
         ("currency", .text "EUR"),
         ("total_cents", .text (fill "payload.new.total_cents"))]⟩,
      ⟨"n2", .action, "Reserve stock",
        [("action_kind", .text "stock.reserve"),
         ("sales_order_id", .text (fill "subject_id")),
         ("lines", .text (fill "payload.new.lines"))]⟩,
      ⟨"n3", .action, "Confirm to customer",
        [("action_kind", .text "email.send"),
         ("to", .text (fill "payload.new.customer_email")),
         ("subject", .text "Order confirmed"),
         ("body", .text ("Thanks! Pro forma " ++ fill "payload.new.proforma_number"
           ++ " attached."))]⟩],
     [⟨"n1", "n2", none⟩, ⟨"n2", "n3", none⟩]⟩
/-- All of them, in the order in which they are registered. -/
def builtin : List Template := [leadNurture, dealSlaEscalation, invoiceReminders, orderConfirmation]

end Workflow.Template
