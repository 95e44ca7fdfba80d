import DayWeave.Domain.DailyWindow
import DayWeave.Recurrence.Dates
import DayWeave.Recurrence.Canonical
import DayWeave.Recurrence.Genuine
import DayWeave.Recurrence.Spacing
import DayWeave.Scheduler.Reorder
import DayWeave.Scheduler.Safety
import DayWeave.Scheduler.Limits
import DayWeave.Scheduler.Indices
import DayWeave.Scheduler.Policy
import DayWeave.Scheduler.Greedy
import DayWeave.Scheduler.Evidence
import DayWeave.Scheduler.Buffers
import DayWeave.Compose.Sensitivity
import DayWeave.Execution.Repository
import DayWeave.Execution.Wire
import DayWeave.Google.Recurrence
import DayWeave.Google.TaskNotes
import DayWeave.Items.Reopening
import DayWeave.Items.Integrity
import DayWeave.Routine.Progress
import DayWeave.Habits.Analytics
import DayWeave.Progress.Decimal
